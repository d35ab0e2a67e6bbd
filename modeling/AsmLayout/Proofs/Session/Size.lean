import AsmLayout.Proofs.Layout.Counter
import AsmLayout.Proofs.Session.History

/-!
# The size of a layout

The size is the highest value of the counter while the records are read for the first time. Main
statements: `Session.resolve_covers` (it covers the storage that is placed then) and
`Session.resolve_packs` (without `ORG`, that storage fills it but for padding).
-/

namespace AsmLayout

namespace Pass

variable {p : Pass} {rs : List Record} {v : Visit} {a : Placement}

theorem highWater_foldl_retryRecord (p : Pass) (ds : List Deferred) :
    (ds.foldl retryRecord p).highWater = p.highWater := by
  rw [foldl_retryRecord_eq]

theorem counter_foldl_retryRecord (p : Pass) (ds : List Deferred) :
    (ds.foldl retryRecord p).counter = p.counter := by
  rw [foldl_retryRecord_eq]

theorem highWater_run (p : Pass) (rs : List Record) :
    (p.run rs).highWater = (rs.foldl forward p).highWater :=
  highWater_foldl_retryRecord _ _

theorem Bounded.counter_of_mem_visits (h : p.Bounded) (hv : v ∈ p.visits rs) :
    0 ≤ v.counter.toInt ∧ v.counter.toInt ≤ (rs.foldl Pass.forward p).highWater.toInt := by
  obtain ⟨pre, post, hrs, hvisit⟩ := mem_visits hv
  have hpre := h.foldl_forward pre
  have hcounter : v.counter = (pre.foldl Pass.forward p).counter := by rw [hvisit]; rfl
  have hgrows := highWater_le_foldl_forward (pre.foldl Pass.forward p) (v.record :: post)
  rw [← List.foldl_append, ← hrs] at hgrows
  rw [hcounter]
  exact ⟨hpre.nonneg, Int.le_trans hpre.le hgrows⟩

theorem placement?_mem_placements (hv : v ∈ p.visits rs) (h : v.placement? = some a) :
    a ∈ p.placements rs := by
  rw [← filterMap_visitsFrom p 0]
  exact List.mem_filterMap.2 ⟨v, hv, h⟩

theorem start_nonneg (hcounter : 0 ≤ v.counter.toInt) (h : v.placement? = some a) : 0 ≤ a.start := by
  obtain ⟨-, hstart, -⟩ := placement?_bounds h
  omega

end Pass

namespace Session

variable {s : Session} {context : String} {records : List Record}

theorem size_resolve (hnew : s.layout? context = none) (records : List Record) :
    (s.resolve context records).1.size =
      (records.foldl Pass.forward (s.firstPass context)).highWater := by
  rw [resolve_of_new hnew]
  exact Pass.highWater_run _ records

theorem firstPass_bounded (s : Session) (context : String) : (s.firstPass context).Bounded :=
  Pass.start_bounded _ _ _

/-- Where a storage record of a new layout leaves no diagnostic, its storage has a place. The size of
the layout is the highest value of the counter while the records are read for the first time, and
covers all storage that is placed then. Storage that has to wait is placed at the counter of its
first visit, which the size covers too, but takes no room of its own: the counter stays where the
first reading leaves it. -/
theorem resolve_covers (hnew : s.layout? context = none) (records : List Record) :
    let p := s.firstPass context
    let first := records.foldl Pass.forward p
    let size := (s.resolve context records).1.size.toInt
    (∀ v ∈ p.conclusions records, v.record.directive = .ds ∨ v.record.directive = .dc →
        v.diagnostics = [] →
          ∃ a, v.placement? = some a ∧ v.values? = some (a.displacement, a.operand.length)) ∧
      (∀ v ∈ p.atOnce records, ∀ a, v.placement? = some a → 0 ≤ a.start ∧ a.stop ≤ size) ∧
      (∀ v ∈ p.laterStorage records, ∀ a, v.placement? = some a →
        0 ≤ v.counter.toInt ∧ v.counter.toInt ≤ size ∧
          v.counter.toInt ≤ a.start ∧ a.start < v.counter.toInt + a.boundary) ∧
      IsGreatest {n : Int | n = 0 ∨
        ∃ seen, seen <+: records ∧ n = (seen.foldl Pass.forward p).counter.toInt} size ∧
      ∀ again, again <+: first.deferredEqu ++ first.deferredStorage →
        (again.foldl Pass.retryRecord first).counter = first.counter := by
  intro p first size
  have hp : p.Bounded := s.firstPass_bounded context
  have hsize : size = first.highWater.toInt :=
    congrArg Int64.toInt (size_resolve hnew records)
  rw [hsize]
  refine ⟨fun v hv => (Pass.concludes_of_mem_conclusions hv).exists_placement, ?_, ?_,
    hp.highWater_isGreatest records, fun again _ => Pass.counter_foldl_retryRecord first again⟩
  · intro v hv a hplace
    have hvisit := (List.mem_filter.1 hv).1
    exact ⟨Pass.start_nonneg (hp.counter_of_mem_visits hvisit).1 hplace,
      Pass.stop_le_highWater (Pass.placement?_mem_placements hvisit hplace)⟩
  · intro v hv a hplace
    obtain ⟨u, hu, -, ds, rfl⟩ := Pass.mem_later (List.mem_append_right _ hv)
    obtain ⟨hnonneg, hle⟩ := hp.counter_of_mem_visits hu
    obtain ⟨-, hstart, hlt⟩ := Pass.placement?_bounds hplace
    exact ⟨hnonneg, hle, hstart, hlt⟩

/-- Of two storage records one waits for its length; both begin at zero. -/
theorem resolve_covers_waiting :
    let s := start .standard true
    let records : List Record :=
      [⟨some "A", .ds, "CL(N)"⟩, ⟨some "B", .ds, "F"⟩, ⟨some "N", .equ, "8"⟩]
    let p := s.firstPass "REC"
    let first := records.foldl Pass.forward p
    let layout := (s.resolve "REC" records).1
    layout.size = 4 ∧ first.retry.counter = 4 ∧
      (∀ v ∈ p.atOnce records, ∀ a, v.placement? = some a →
        0 ≤ a.start ∧ a.stop ≤ layout.size.toInt) ∧
      ∀ v ∈ p.laterStorage records, ∀ a, v.placement? = some a → a.stop = 8 ∧
        v.counter.toInt ≤ layout.size.toInt ∧ v.counter.toInt ≤ a.start := by
  intro s records p first layout
  have hnew : s.layout? "REC" = none := rfl
  obtain ⟨-, hfirst, hlater, -, hcounter⟩ := resolve_covers hnew records
  have hend : first.counter = 4 := by decide +kernel
  refine ⟨by decide +kernel, (hcounter _ List.prefix_rfl).trans hend, hfirst,
    fun v hv a hplace => ?_⟩
  obtain ⟨-, hle, hstart, -⟩ := hlater v hv a hplace
  refine ⟨?_, hle, hstart⟩
  have hstops : ∀ n ∈ (p.laterStorage records).filterMap fun v => v.placement?.map Placement.stop,
      n = 8 := by decide +kernel
  exact hstops a.stop (List.mem_filterMap.2 ⟨v, hv, by rw [hplace]; rfl⟩)

/-- Storage that waits for its length may end past the size. -/
theorem resolve_not_covers_conclusions :
    ¬ ∀ (s : Session) (context : String) (records : List Record), s.Reachable →
      s.layout? context = none → ∀ v ∈ (s.firstPass context).conclusions records, ∀ a,
        v.placement? = some a →
          0 ≤ a.start ∧ a.stop ≤ (s.resolve context records).1.size.toInt := by
  intro h
  let s := start .standard true
  let records : List Record := [⟨some "A", .ds, "CL(N)"⟩, ⟨some "N", .equ, "8"⟩]
  have hstops : (8 : Int) ∈ ((s.firstPass "REC").conclusions records).filterMap
      fun v => v.placement?.map Placement.stop := by decide +kernel
  obtain ⟨v, hv, hstop⟩ := List.mem_filterMap.1 hstops
  obtain ⟨a, hplace, hstop⟩ := Option.map_eq_some_iff.1 hstop
  obtain ⟨-, hle⟩ := h s "REC" records (.start .standard true) rfl v hv a hplace
  have hsize : (s.resolve "REC" records).1.size.toInt = 0 := by decide +kernel
  omega

/-- Where no record is an `ORG`, the storage that is placed when the records are read for the first
time lies in their order, each area at the first suitable boundary behind the one before, and the
layout ends with the last of them. -/
theorem resolve_packs (hnew : s.layout? context = none)
    (horg : ∀ r ∈ records, r.directive ≠ .org) :
    let placed := (s.firstPass context).placements records
    (∀ stop a, (stop, a) ∈ (0 :: placed.map Placement.stop).zip placed →
        a.boundary ∣ a.start ∧ stop ≤ a.start ∧ a.start < stop + a.boundary) ∧
      (placed.Pairwise fun a b => a.start ≤ a.stop ∧ a.stop ≤ b.start) ∧
      (s.resolve context records).1.size.toInt = (placed.map Placement.stop).getLastD 0 := by
  intro placed
  have hpacked : Pass.Packed 0 placed
      (records.foldl Pass.forward (s.firstPass context)).counter.toInt :=
    Pass.packed_placements (p := s.firstPass context) horg
  have htop : (records.foldl Pass.forward (s.firstPass context)).AtTop :=
    Pass.AtTop.foldl_forward (p := s.firstPass context) rfl fun r hr hjumps => horg r hr hjumps.1
  refine ⟨fun stop a => hpacked.bounds_of_mem_zip, hpacked.pairwise, ?_⟩
  rw [size_resolve hnew, ← htop]
  exact hpacked.eq_getLastD

/-- Storage among records that fail, that wait or that reserve nothing. -/
theorem resolve_packs_mixed :
    let s := start .standard true
    let records : List Record := [⟨some "A", .ds, "C"⟩, ⟨some "N", .equ, "A+5"⟩,
      ⟨none, .dsect, ""⟩, ⟨some "B", .ds, "H"⟩, ⟨some "X", .ds, "CL(L'GHOST)"⟩,
      ⟨some "Y", .ds, "Q"⟩, ⟨none, .ds, "0F"⟩, ⟨some "C", .dc, "2HL3"⟩, ⟨some "Z", .ds, "CL(M)"⟩,
      ⟨some "M", .equ, "D-A"⟩, ⟨some "D", .ds, "D"⟩]
    let placed := (s.firstPass "REC").placements records
    (∀ r ∈ records, r.directive ≠ .org) ∧
      placed.map (fun a => (a.start, a.stop)) = [(0, 1), (2, 4), (4, 4), (4, 10), (16, 24)] ∧
      (∀ stop a, (stop, a) ∈ (0 :: placed.map Placement.stop).zip placed →
        a.boundary ∣ a.start ∧ stop ≤ a.start ∧ a.start < stop + a.boundary) ∧
      (s.resolve "REC" records).1.size.toInt = (placed.map Placement.stop).getLastD 0 := by
  intro s records placed
  have horg : ∀ r ∈ records, r.directive ≠ .org := by decide +kernel
  have hnew : s.layout? "REC" = none := rfl
  obtain ⟨hbounds, -, hsize⟩ := resolve_packs hnew horg
  exact ⟨horg, by decide +kernel, hbounds, hsize⟩

end Session
end AsmLayout
