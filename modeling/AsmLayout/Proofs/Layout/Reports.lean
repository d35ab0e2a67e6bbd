import AsmLayout.Proofs.Layout.Frame
import AsmLayout.Proofs.Layout.Soundness
import Mathlib.Data.List.Nodup

/-!
# Failed records

The diagnostics of a pass, each with the position of the record that it is about (`Pass.reports`).
A record that fails leaves its diagnostic and nothing else, so that any failed records may be left
out. Main statements: `Pass.reported_iff` and `Pass.line_of_mem_reports` (the reports stand at the
positions of the records that leave a diagnostic) and `Pass.run_keptFrom` (what becomes of a pass
without some of these records).
-/

namespace AsmLayout

section Positions

variable {α β : Type} {part : β → List α} {l : List (β × Nat)} {keep : Nat → Bool}

/-- The parts of every member, each at the position of its member. -/
def spread (part : β → List α) (l : List (β × Nat)) : List (α × Nat) :=
  l.flatMap fun x => (part x.1).map (·, x.2)

theorem mem_spread {a : α} {i : Nat} :
    (a, i) ∈ spread part l ↔ ∃ b, (b, i) ∈ l ∧ a ∈ part b := by
  simp only [spread, List.mem_flatMap, List.mem_map, Prod.mk.injEq, Prod.exists]
  constructor
  · rintro ⟨b, j, hb, a', ha, rfl, rfl⟩
    exact ⟨b, hb, ha⟩
  · rintro ⟨b, hb, ha⟩
    exact ⟨b, i, hb, a, ha, rfl, rfl⟩

theorem map_fst_spread (part : β → List α) (l : List (β × Nat)) :
    (spread part l).map Prod.fst = (l.map Prod.fst).flatMap part := by
  simp only [spread, List.map_flatMap, List.map_map, List.flatMap_map, Function.comp_def,
    List.map_id']

theorem filter_spread (part : β → List α) (l : List (β × Nat)) (keep : Nat → Bool) :
    (spread part l).filter (fun x => keep x.2) = spread part (l.filter fun x => keep x.2) := by
  induction l with
  | nil => rfl
  | cons x l ih =>
    have hfilter : ((part x.1).map (·, x.2)).filter (fun y => keep y.2) =
        if keep x.2 then (part x.1).map (·, x.2) else [] := by
      rw [List.filter_map]
      cases hx : keep x.2 <;> simp [Function.comp_def, hx]
    rw [spread, List.flatMap_cons, List.filter_append, hfilter, ← spread, ih, List.filter_cons]
    cases keep x.2 <;> rfl

/-- Where no member has two parts, the positions of the parts are some of those of the members. -/
theorem spread_positions (h : ∀ x ∈ l, (part x.1).length ≤ 1) :
    ((spread part l).map Prod.snd).Sublist (l.map Prod.snd) := by
  induction l with
  | nil => exact .slnil
  | cons x l ih =>
    have htail := ih fun y hy => h y (by simp [hy])
    rw [spread, List.flatMap_cons, List.map_append, ← spread]
    have hone := h x (by simp)
    cases hpart : part x.1 with
    | nil => exact htail.cons x.2
    | cons a as =>
      have hnil : as = [] := List.eq_nil_of_length_eq_zero (by simpa [hpart] using hone)
      subst hnil
      exact htail.cons_cons x.2

/-- The members at kept positions, where the first one stands at position `k`. -/
def keptFrom (keep : Nat → Bool) (k : Nat) (l : List α) : List α :=
  ((l.zipIdx k).filter fun x => keep x.2).map Prod.fst

theorem keptFrom_cons (keep : Nat → Bool) (k : Nat) (a : α) (l : List α) :
    keptFrom keep k (a :: l) =
      if keep k then a :: keptFrom keep (k + 1) l else keptFrom keep (k + 1) l := by
  unfold keptFrom
  rw [List.zipIdx_cons, List.filter_cons]
  split <;> rfl

theorem keptFrom_true (k : Nat) (l : List α) : keptFrom (fun _ => true) k l = l := by
  rw [keptFrom, List.filter_true, List.zipIdx_map_fst]

end Positions

namespace Pass

variable {p : Pass} {r : Record} {rs pre : List Record} {x : Deferred} {d : Diagnostic}
  {ds ds' : List Diagnostic} {log log' : Log} {i : Nat} {keep : Nat → Bool}

theorem Log.part_concat {α : Type} (part : Log → List α) (hempty : part .empty = [])
    (happend : ∀ a b : Log, part (a ++ b) = part a ++ part b) (logs : List Log) :
    part (concat logs) = logs.flatMap part := by
  induction logs with
  | nil => exact hempty
  | cons log logs ih => rw [concat_cons, happend, ih, List.flatMap_cons]

/-- A record adds one thing to the log at most. -/
theorem notes_short (p : Pass) (r : Record) : (p.notes r).equs.length +
    (p.notes r).storage.length + (p.notes r).diagnostics.length ≤ 1 := by
  unfold notes
  cases p.reading r with
  | ok effect => exact Nat.zero_le 1
  | error e => dsimp only; split_ifs <;> exact Nat.le_refl 1

theorem notes_about (p : Pass) (r : Record) :
    (∀ x ∈ (p.notes r).equs ++ (p.notes r).storage, x.record = r) ∧
      ∀ d ∈ (p.notes r).diagnostics, d.line = r.render := by
  unfold notes
  cases p.reading r with
  | ok effect => exact ⟨by simp [Log.empty], by simp [Log.empty]⟩
  | error e =>
    dsimp only
    split_ifs <;> exact ⟨by simp, by simp [complaint]⟩

theorem notes_of_defers (h : p.Defers r) : p.notes r =
    if r.directive = .equ then ⟨[⟨r, p.counter⟩], [], []⟩ else ⟨[], [⟨r, p.counter⟩], []⟩ := by
  obtain ⟨e, he, hforward, hwait⟩ := h
  rw [notes, he]
  dsimp only
  rw [hforward, hwait, Bool.and_self, if_pos rfl]

theorem defers_of_notes (h : x ∈ (p.notes r).equs ++ (p.notes r).storage) : p.Defers r := by
  rcases forward_cases p r with ⟨effect, he, -⟩ | ⟨hd, -⟩ | ⟨e, he, hd, -⟩
  · rw [notes, he] at h
    cases h
  · exact hd
  · rw [notes, he] at h
    dsimp only at h
    split at h
    · next hw => exact ⟨e, he, Bool.and_eq_true_iff.1 hw⟩
    · cases h

theorem retryNotes_about (h : d ∈ p.retryNotes x) : d.line = x.record.render := by
  unfold retryNotes at h
  split at h
  · cases h
  · cases List.mem_singleton.1 h
    rfl

theorem forward_diagnostics_iff :
    (p.forward r).diagnostics ≠ p.diagnostics ↔ (p.notes r).diagnostics ≠ [] := by
  have h : (p.forward r).diagnostics = p.diagnostics ++ (p.notes r).diagnostics :=
    congrArg Log.diagnostics (log_forward p r)
  rw [h, Ne, List.append_right_eq_self]

theorem retryRecord_diagnostics_iff :
    (p.retryRecord x).diagnostics ≠ p.diagnostics ↔ p.retryNotes x ≠ [] := by
  have h : (p.retryRecord x).diagnostics = p.diagnostics ++ p.retryNotes x :=
    congrArg Log.diagnostics (log_retryRecord p x)
  rw [h, Ne, List.append_right_eq_self]

theorem readings_append (p : Pass) (rs rs' : List Record) :
    p.readings (rs ++ rs') = p.readings rs ++ (rs.foldl forward p).readings rs' := by
  induction rs generalizing p with
  | nil => rfl
  | cons r rs ih => rw [List.cons_append, readings, ih, readings, List.foldl_cons, List.cons_append]

theorem rereadings_append (p : Pass) (xs xs' : List Deferred) :
    p.rereadings (xs ++ xs') = p.rereadings xs ++ (xs.foldl retryRecord p).rereadings xs' := by
  induction xs generalizing p with
  | nil => rfl
  | cons x xs ih =>
    rw [List.cons_append, rereadings, ih, rereadings, List.foldl_cons, List.cons_append]

theorem length_readings (p : Pass) (rs : List Record) : (p.readings rs).length = rs.length := by
  induction rs generalizing p with
  | nil => rfl
  | cons r rs ih => rw [readings, List.length_cons, ih, List.length_cons]

theorem length_rereadings (p : Pass) (xs : List Deferred) :
    (p.rereadings xs).length = xs.length := by
  induction xs generalizing p with
  | nil => rfl
  | cons x xs ih => rw [rereadings, List.length_cons, ih, List.length_cons]

/-! ### Reports -/

/-- What each record adds to the log when it is read for the first time, with its position. -/
def located (p : Pass) (records : List Record) : List (Log × Nat) := (p.readings records).zipIdx

/-- The records that are read again, with their positions. -/
def postponed (p : Pass) (records : List Record) : List (Deferred × Nat) :=
  spread Log.equs (p.located records) ++ spread Log.storage (p.located records)

/-- The diagnostics of each record that is read again, with its position. -/
def relocated (p : Pass) (records : List Record) : List (List Diagnostic × Nat) :=
  ((records.foldl forward p).rereadings ((p.postponed records).map Prod.fst)).zip
    ((p.postponed records).map Prod.snd)

/-- The diagnostics of the records of a context, each with the position of its record. -/
def reports (p : Pass) (records : List Record) : List (Diagnostic × Nat) :=
  spread Log.diagnostics (p.located records) ++ spread id (p.relocated records)

theorem map_fst_spread_located (hlog : p.log = .empty) (part : Log → List Deferred)
    (hempty : part .empty = []) (happend : ∀ a b : Log, part (a ++ b) = part a ++ part b) :
    (spread part (p.located rs)).map Prod.fst = part (rs.foldl forward p).log := by
  rw [log_foldl_forward, hlog, happend, hempty, List.nil_append,
    Log.part_concat part hempty happend, map_fst_spread, located, List.zipIdx_map_fst]

theorem map_fst_postponed (hlog : p.log = .empty) :
    (p.postponed rs).map Prod.fst = (rs.foldl forward p).queue := by
  rw [postponed, List.map_append, map_fst_spread_located hlog Log.equs rfl fun _ _ => rfl,
    map_fst_spread_located hlog Log.storage rfl fun _ _ => rfl]
  rfl

theorem exists_of_mem_located (h : (log, i) ∈ p.located rs) :
    ∃ q r, rs[i]? = some r ∧ log = notes q r := by
  rw [located, List.mem_zipIdx_iff_getElem?] at h
  dsimp only at h
  induction rs generalizing p i with
  | nil => cases h
  | cons r rs ih =>
    cases i with
    | zero => exact ⟨p, r, rfl, (Option.some.inj h).symm⟩
    | succ i => exact ih h

theorem located_unique (h : (log, i) ∈ p.located rs) (h' : (log', i) ∈ p.located rs) :
    log = log' := by
  rw [located, List.mem_zipIdx_iff_getElem?] at h h'
  exact Option.some.inj (h.symm.trans h')

theorem located_short (h : (log, i) ∈ p.located rs) :
    log.equs.length + log.storage.length + log.diagnostics.length ≤ 1 := by
  obtain ⟨q, r, -, rfl⟩ := exists_of_mem_located h
  exact notes_short q r

theorem mem_postponed : (x, i) ∈ p.postponed rs ↔
    ∃ log, (log, i) ∈ p.located rs ∧ x ∈ log.equs ++ log.storage := by
  simp only [postponed, List.mem_append, mem_spread, and_or_left, exists_or]

theorem postponed_nodup (p : Pass) (rs : List Record) :
    ((p.postponed rs).map Prod.snd).Nodup := by
  have hnodup : ((p.located rs).map Prod.snd).Nodup := by
    rw [located, List.zipIdx_map_snd]
    exact List.nodup_range'
  rw [postponed, List.map_append, List.nodup_append]
  refine ⟨hnodup.sublist (spread_positions ?_), hnodup.sublist (spread_positions ?_), ?_⟩
  · intro y hy
    have hshort := located_short hy
    omega
  · intro y hy
    have hshort := located_short hy
    omega
  · -- a record is set aside in one queue only
    rintro i hequ j hstorage rfl
    obtain ⟨⟨x, k⟩, hx, rfl⟩ := List.mem_map.1 hequ
    obtain ⟨⟨x', k'⟩, hx', hk : k' = k⟩ := List.mem_map.1 hstorage
    subst hk
    obtain ⟨log, hlog, hx⟩ := mem_spread.1 hx
    obtain ⟨log', hlog', hx'⟩ := mem_spread.1 hx'
    rw [located_unique hlog' hlog] at hx'
    have hshort := located_short hlog
    have hequs := List.length_pos_of_mem hx
    have hstorage := List.length_pos_of_mem hx'
    omega

theorem relocated_unique (h : (ds, i) ∈ p.relocated rs) (h' : (ds', i) ∈ p.relocated rs) :
    ds = ds' := by
  have hpositions : (p.relocated rs).map Prod.snd = (p.postponed rs).map Prod.snd := by
    refine List.map_snd_zip ?_
    rw [length_rereadings, List.length_map, List.length_map]
  have hnodup := postponed_nodup p rs
  rw [← hpositions] at hnodup
  exact congrArg Prod.fst (List.inj_on_of_nodup_map hnodup h h' rfl)

theorem exists_of_mem_zip_rereadings {xs : List (Deferred × Nat)}
    (h : (ds, i) ∈ (p.rereadings (xs.map Prod.fst)).zip (xs.map Prod.snd)) :
    ∃ q x, (x, i) ∈ xs ∧ ds = retryNotes q x := by
  induction xs generalizing p with
  | nil => cases h
  | cons x xs ih =>
    rcases List.mem_cons.1 h with h | h
    · cases h
      exact ⟨p, x.1, List.mem_cons_self .., rfl⟩
    · obtain ⟨q, y, hy, hds⟩ := ih h
      exact ⟨q, y, List.mem_cons_of_mem x hy, hds⟩

theorem exists_of_mem_relocated (h : (ds, i) ∈ p.relocated rs) :
    ∃ q x log, (log, i) ∈ p.located rs ∧ x ∈ log.equs ++ log.storage ∧ ds = retryNotes q x := by
  obtain ⟨q, x, hx, hds⟩ := exists_of_mem_zip_rereadings h
  obtain ⟨log, hlog, hx⟩ := mem_postponed.1 hx
  exact ⟨q, x, log, hlog, hx, hds⟩

theorem mem_reports : (d, i) ∈ p.reports rs ↔
    (∃ log, (log, i) ∈ p.located rs ∧ d ∈ log.diagnostics) ∨
      ∃ ds, (ds, i) ∈ p.relocated rs ∧ d ∈ ds := by
  rw [reports, List.mem_append, mem_spread, mem_spread]
  rfl

/-- Every report names the record at its position. -/
theorem line_of_mem_reports (h : (d, i) ∈ p.reports rs) :
    ∃ r, rs[i]? = some r ∧ d.line = r.render := by
  rcases mem_reports.1 h with ⟨log, hlog, hd⟩ | ⟨ds, hds, hd⟩
  · obtain ⟨q, r, hr, rfl⟩ := exists_of_mem_located hlog
    exact ⟨r, hr, (notes_about q r).2 d hd⟩
  · obtain ⟨q, x, log, hlog, hx, rfl⟩ := exists_of_mem_relocated hds
    obtain ⟨q', r, hr, rfl⟩ := exists_of_mem_located hlog
    have hrecord := (notes_about q' r).1 x hx
    subst hrecord
    exact ⟨x.record, hr, retryNotes_about hd⟩

theorem located_append (p : Pass) (pre : List Record) (r : Record) (post : List Record) :
    ∃ rest, p.located (pre ++ r :: post) =
      p.located pre ++ ((pre.foldl forward p).notes r, pre.length) :: rest := by
  rw [located, located, readings_append, readings, List.zipIdx_append, length_readings,
    Nat.zero_add, List.zipIdx_cons]
  exact ⟨_, rfl⟩

theorem postponed_split (hlog : p.log = .empty) (post : List Record)
    (hd : (pre.foldl forward p).Defers r) :
    ∃ front back, p.postponed (pre ++ r :: post) =
        front ++ (⟨r, (pre.foldl forward p).counter⟩, pre.length) :: back ∧
      front.map Prod.fst = p.ahead pre r post := by
  obtain ⟨rest, hrest⟩ := p.located_append pre r post
  rw [notes_of_defers hd] at hrest
  unfold ahead
  by_cases hdir : r.directive = .equ
  · -- before an `EQU` stand those of `pre`
    rw [if_pos hdir] at hrest ⊢
    refine ⟨spread Log.equs (p.located pre), spread Log.equs rest ++
      spread Log.storage (p.located (pre ++ r :: post)), ?_,
      map_fst_spread_located hlog Log.equs rfl fun _ _ => rfl⟩
    rw [postponed]
    nth_rewrite 1 [hrest]
    simp [spread]
  · -- before storage stand all `EQU` records, those of `post` too
    rw [if_neg hdir] at hrest ⊢
    refine ⟨spread Log.equs (p.located (pre ++ r :: post)) ++ spread Log.storage (p.located pre),
      spread Log.storage rest, ?_, ?_⟩
    · rw [postponed]
      nth_rewrite 2 [hrest]
      simp [spread]
    · rw [List.map_append, map_fst_spread_located hlog Log.equs rfl fun _ _ => rfl,
        map_fst_spread_located hlog Log.storage rfl fun _ _ => rfl]
      rfl

theorem relocated_of_defers (hlog : p.log = .empty) (post : List Record)
    (hd : (pre.foldl forward p).Defers r) :
    ((p.beforeRetry pre r post).retryNotes ⟨r, (pre.foldl forward p).counter⟩, pre.length) ∈
      p.relocated (pre ++ r :: post) := by
  obtain ⟨front, back, hsplit, hfront⟩ := postponed_split hlog post hd
  rw [relocated, hsplit, List.map_append, List.map_append, rereadings_append, List.zip_append]
  · refine List.mem_append_right _ ?_
    rw [hfront]
    exact List.mem_cons_self ..
  · rw [length_rereadings, List.length_map, List.length_map]

/-- The reports hold something about a position exactly if reading the record there leaves a
diagnostic. -/
theorem reported_iff (hlog : p.log = .empty) (post : List Record) : p.Reported pre r post ↔
    pre.length ∈ (p.reports (pre ++ r :: post)).map Prod.snd := by
  have hfirst : ((pre.foldl forward p).notes r, pre.length) ∈ p.located (pre ++ r :: post) := by
    obtain ⟨rest, hrest⟩ := p.located_append pre r post
    rw [hrest]
    simp
  rw [Reported, forward_diagnostics_iff, retryRecord_diagnostics_iff]
  constructor
  · rintro (h | ⟨hd, h⟩)
    · obtain ⟨d, hd⟩ := List.exists_mem_of_ne_nil _ h
      exact List.mem_map_of_mem (mem_reports.2 (.inl ⟨_, hfirst, hd⟩))
    · obtain ⟨d, hmem⟩ := List.exists_mem_of_ne_nil _ h
      exact List.mem_map_of_mem (mem_reports.2 (.inr ⟨_, relocated_of_defers hlog post hd, hmem⟩))
  · intro h
    obtain ⟨⟨d, i⟩, hd, hi : i = pre.length⟩ := List.mem_map.1 h
    subst hi
    rcases mem_reports.1 hd with ⟨log, hlog', hd⟩ | ⟨ds, hds, hd⟩
    · rw [located_unique hlog' hfirst] at hd
      exact .inl (List.ne_nil_of_mem hd)
    · obtain ⟨-, x, log, hlog', hx, -⟩ := exists_of_mem_relocated hds
      rw [located_unique hlog' hfirst] at hx
      have hdefers := defers_of_notes hx
      rw [relocated_unique hds (relocated_of_defers hlog post hdefers)] at hd
      exact .inr ⟨hdefers, List.ne_nil_of_mem hd⟩

/-! ### Leaving out failed records -/

/-- A record that adds to the log does nothing else, if it is no labelled `ORG`. -/
theorem forward_view_of_notes (hnotes : p.notes r ≠ .empty)
    (hlabel : r.directive = .org → r.label = none) (keep : String × String → Bool) (log : Log) :
    (p.forward r).view keep log = p.view keep log := by
  -- the label of an `ORG` is the one thing that is defined before the operand is read
  have hmark : p.markOrigin r = p := by
    unfold markOrigin
    split
    · next horg => rw [hlabel horg]; rfl
    · rfl
  rw [forward_eq, hmark]
  unfold notes at hnotes
  cases hr : p.reading r with
  | ok effect => rw [hr] at hnotes; exact absurd rfl hnotes
  | error e =>
    dsimp only
    split
    · unfold defer
      dsimp only
      split <;> rfl
    · rfl

theorem retryRecord_view_of_retryNotes {d : Deferred} (hnotes : p.retryNotes d ≠ [])
    (keep : String × String → Bool) (log : Log) :
    (p.retryRecord d).view keep log = p.view keep log := by
  unfold retryNotes at hnotes
  unfold retryRecord
  cases hr : p.effect d.record d.counter with
  | ok effect => rw [hr] at hnotes; exact absurd rfl hnotes
  | error e => rfl

/-- The passes with and without the records that add to the log run side by side, their logs
apart. -/
theorem foldl_forward_keptFrom {k : Nat} (log : Log)
    (hnotes : ∀ x ∈ (p.readings rs).zipIdx k, keep x.2 = false → x.1 ≠ .empty)
    (hlabel : ∀ x ∈ rs.zipIdx k, keep x.2 = false → x.1.directive = .org → x.1.label = none) :
    (keptFrom keep k rs).foldl forward (p.view (fun _ => true) log) =
      (rs.foldl forward p).view (fun _ => true)
        (log ++ .concat (keptFrom keep k (p.readings rs))) := by
  induction rs generalizing p k log with
  | nil => exact congrArg (p.view _) (Log.append_empty log).symm
  | cons r rs ih =>
    rw [readings, List.zipIdx_cons, List.forall_mem_cons] at hnotes
    rw [List.zipIdx_cons, List.forall_mem_cons] at hlabel
    rw [readings, keptFrom_cons, keptFrom_cons, List.foldl_cons]
    cases hkeep : keep k with
    | true =>
      rw [if_pos rfl, if_pos rfl, List.foldl_cons, forward_view (r.within_true ..),
        ih _ hnotes.2 hlabel.2, Log.concat_cons, Log.append_assoc]
    | false =>
      rw [if_neg Bool.false_ne_true, if_neg Bool.false_ne_true, ← ih _ hnotes.2 hlabel.2,
        forward_view_of_notes (hnotes.1 hkeep) (hlabel.1 hkeep)]

theorem foldl_retryRecord_kept {ds : List (Deferred × Nat)} (log : Log)
    (hnotes : ∀ x ∈ (p.rereadings (ds.map Prod.fst)).zip (ds.map Prod.snd),
      keep x.2 = false → x.1 ≠ []) :
    ((ds.filter fun x => keep x.2).map Prod.fst).foldl retryRecord (p.view (fun _ => true) log) =
      ((ds.map Prod.fst).foldl retryRecord p).view (fun _ => true)
        (log.add ((((p.rereadings (ds.map Prod.fst)).zip (ds.map Prod.snd)).filter
          fun x => keep x.2).map Prod.fst).flatten) := by
  induction ds generalizing p log with
  | nil => exact congrArg (p.view _) (Log.add_nil log).symm
  | cons x ds ih =>
    obtain ⟨d, k⟩ := x
    rw [List.map_cons, List.map_cons, rereadings, List.zip_cons_cons,
      List.forall_mem_cons] at hnotes
    rw [List.map_cons, List.map_cons, rereadings, List.zip_cons_cons, List.filter_cons,
      List.filter_cons, List.foldl_cons]
    dsimp only at hnotes ⊢
    cases hkeep : keep k with
    | true =>
      rw [if_pos rfl, if_pos rfl, List.map_cons, List.map_cons, List.foldl_cons,
        retryRecord_view (d.record.within_true ..), ih _ hnotes.2, List.flatten_cons, Log.add_add]
    | false =>
      rw [if_neg Bool.false_ne_true, if_neg Bool.false_ne_true, ← ih _ hnotes.2,
        retryRecord_view_of_retryNotes (hnotes.1 hkeep)]

/-- The record at the position leaves a diagnostic, and it is no labelled `ORG`. -/
def Fails (p : Pass) (records : List Record) (i : Nat) : Prop :=
  i ∈ (p.reports records).map Prod.snd ∧
    ∀ r ∈ records[i]?, r.directive = .org → r.label = none

theorem Fails.located_ne (h : p.Fails rs i) (hlog : (log, i) ∈ p.located rs) :
    log ≠ .empty := by
  rintro rfl
  obtain ⟨⟨d, _⟩, hd, rfl⟩ := List.mem_map.1 h.1
  rcases mem_reports.1 hd with ⟨log, hlog', hd⟩ | ⟨ds, hds, -⟩
  · rw [located_unique hlog' hlog] at hd
    cases hd
  · obtain ⟨-, x, log, hlog', hx, -⟩ := exists_of_mem_relocated hds
    rw [located_unique hlog' hlog] at hx
    cases hx

theorem Fails.relocated_ne (h : p.Fails rs i) (hds : (ds, i) ∈ p.relocated rs) : ds ≠ [] := by
  rintro rfl
  obtain ⟨⟨d, _⟩, hd, rfl⟩ := List.mem_map.1 h.1
  rcases mem_reports.1 hd with ⟨log, hlog, hd⟩ | ⟨ds, hds', hd⟩
  · -- a record that is read again left no diagnostic before
    obtain ⟨-, x, log', hlog', hx, -⟩ := exists_of_mem_relocated hds
    rw [located_unique hlog' hlog] at hx
    have hshort := located_short hlog
    have hqueued := List.length_pos_of_mem hx
    have hreported := List.length_pos_of_mem hd
    rw [List.length_append] at hqueued
    omega
  · rw [relocated_unique hds' hds] at hd
    cases hd

theorem Fails.label_eq_none (h : p.Fails rs i) (hr : (r, i) ∈ rs.zipIdx)
    (horg : r.directive = .org) : r.label = none :=
  h.2 r (List.mem_zipIdx_iff_getElem?.1 hr) horg

theorem queue_view_keptFrom :
    ((rs.foldl forward p).view (fun _ => true)
        (.concat (keptFrom keep 0 (p.readings rs)))).queue =
      ((p.postponed rs).filter fun x => keep x.2).map Prod.fst := by
  show (Log.concat _).equs ++ (Log.concat _).storage = _
  rw [Log.part_concat Log.equs rfl fun _ _ => rfl, Log.part_concat Log.storage rfl fun _ _ => rfl,
    postponed, List.filter_append, List.map_append, filter_spread, filter_spread, map_fst_spread,
    map_fst_spread]
  rfl

/-- Without some of the records that fail, a pass ends as it does with them, but for the log: there
the diagnostics of those records are missing. -/
theorem run_keptFrom (hlog : p.log = .empty) (rs : List Record) (keep : Nat → Bool)
    (h : ∀ i, keep i = false → p.Fails rs i) :
    ∃ log, p.run (keptFrom keep 0 rs) = (p.run rs).view (fun _ => true) log ∧
      log.diagnostics = ((p.reports rs).filter fun x => keep x.2).map Prod.fst := by
  -- the two passes differ in their logs only, after the first reading and after the second
  let log := Log.concat (keptFrom keep 0 (p.readings rs))
  let again := (((p.relocated rs).filter fun x => keep x.2).map Prod.fst).flatten
  have hforward : (keptFrom keep 0 rs).foldl forward p =
      (rs.foldl forward p).view (fun _ => true) log := by
    have hfold := foldl_forward_keptFrom (p := p) (k := 0) p.log
      (fun x hx hkeep => (h x.2 hkeep).located_ne hx)
      fun x hx hkeep => (h x.2 hkeep).label_eq_none hx
    rw [view_true, hlog] at hfold
    exact hfold
  have hretry : ((rs.foldl forward p).view (fun _ => true) log).retry =
      (rs.foldl forward p).retry.view (fun _ => true) (log.add again) := by
    have hfold : (((p.postponed rs).filter fun x => keep x.2).map Prod.fst).foldl retryRecord
        ((rs.foldl forward p).view (fun _ => true) log) =
        (((p.postponed rs).map Prod.fst).foldl retryRecord (rs.foldl forward p)).view
          (fun _ => true) (log.add again) :=
      foldl_retryRecord_kept log fun x hx hkeep => (h x.2 hkeep).relocated_ne hx
    rw [← queue_view_keptFrom, map_fst_postponed hlog] at hfold
    exact hfold
  refine ⟨log.add again, ?_, ?_⟩
  · rw [run, hforward, hretry, run]
  · rw [reports, List.filter_append, List.map_append, filter_spread, filter_spread, map_fst_spread,
      map_fst_spread, List.flatMap_id]
    show (Log.concat _).diagnostics ++ again = _
    rw [Log.part_concat Log.diagnostics rfl fun _ _ => rfl]
    rfl

/-- The reports are the diagnostics of the pass, in their order. -/
theorem diagnostics_run (hlog : p.log = .empty) (rs : List Record) :
    (p.run rs).diagnostics = (p.reports rs).map Prod.fst := by
  obtain ⟨log, hrun, hdiagnostics⟩ := run_keptFrom hlog rs (fun _ => true)
    fun i hkeep => by cases hkeep
  rw [keptFrom_true] at hrun
  rw [List.filter_true] at hdiagnostics
  rw [hrun]
  exact hdiagnostics

end Pass
end AsmLayout
