import AsmLayout.Proofs.Layout.Placement
import Mathlib.Order.Bounds.Defs

/-!
# The location counter

Reading a record leaves the counter where it is, moves it past storage, or moves it where an `ORG`
says (`Pass.moves_forward`). Main statements: `Pass.foldl_forward_counters` (the high-water mark is
the highest value that the counter has had, past all storage) and `Pass.packed_placements` (without
`ORG`, storage follows storage with no room but for alignment).
-/

namespace AsmLayout

/-- An `ORG` without an operand goes on behind all that is laid out so far. -/
def Record.Resumes (r : Record) : Prop := r.directive = .org ∧ Text.isBlankText r.operand = true

/-- An `ORG` with an operand may go anywhere. -/
def Record.Jumps (r : Record) : Prop := r.directive = .org ∧ Text.isBlankText r.operand = false

instance (r : Record) : Decidable r.Resumes := inferInstanceAs (Decidable (_ ∧ _))

instance (r : Record) : Decidable r.Jumps := inferInstanceAs (Decidable (_ ∧ _))

namespace Pass

variable {p q : Pass} {r : Record} {rs : List Record} {a : Placement}

theorem highWater_moveTo (p : Pass) (n : Int64) :
    (p.moveTo n).highWater.toInt = max p.highWater.toInt n.toInt := by
  unfold moveTo
  dsimp only
  by_cases h : p.highWater ≤ n
  · rw [if_pos h]
    rw [Int64.le_iff_toInt_le] at h
    omega
  · rw [if_neg h]
    rw [Int64.le_iff_toInt_le] at h
    omega

theorem origin_of_blank {operand : String} {counter : Int64}
    (h : Text.isBlankText operand = true) : p.origin operand counter = .ok p.highWater := if_pos h

theorem origin_nonneg {operand : String} {counter n : Int64}
    (hblank : Text.isBlankText operand = false) (h : p.origin operand counter = .ok n) :
    0 ≤ n.toInt := by
  rw [origin, if_neg (by rw [hblank]; exact Bool.false_ne_true)] at h
  cases hn : p.number operand counter with
  | error e => rw [hn] at h; cases h
  | ok target =>
    rw [hn] at h
    simp only [bind, Except.bind] at h
    split at h
    · cases h
    · next hneg =>
      cases h
      rw [Int64.lt_iff_toInt_lt] at hneg
      exact Int.not_lt.1 hneg

theorem counters_of_ok {effect : Effect} (h : p.reading r = .ok effect) :
    (effect.counter? = none →
        (p.forward r).counter = p.counter ∧ (p.forward r).highWater = p.highWater) ∧
      ∀ n, effect.counter? = some n → (p.forward r).counter = n ∧
        (p.forward r).highWater.toInt = max p.highWater.toInt n.toInt := by
  rw [forward_of_ok h, settle_eq, markOrigin_eq, advance]
  constructor
  · intro hnone
    rw [hnone]
    exact ⟨rfl, rfl⟩
  · intro n hsome
    rw [hsome]
    exact ⟨rfl, highWater_moveTo _ n⟩

theorem counters_of_error {e : RecordError} (h : p.reading r = .error e) :
    (p.forward r).counter = p.counter ∧ (p.forward r).highWater = p.highWater := by
  by_cases hd : p.Defers r
  · rw [hd.forward, defer]
    split <;> exact ⟨rfl, rfl⟩
  · rw [forward_of_error h hd, markOrigin_eq]
    exact ⟨rfl, rfl⟩

theorem placement?_of_error {e : RecordError} (h : p.reading r = .error e) :
    p.placement? r p.counter = none := by
  cases hplace : p.placement? r p.counter with
  | none => rfl
  | some a =>
    obtain ⟨area, heffect, -⟩ := effect_of_placement? hplace
    have horg : r.directive ≠ .org := ne_org_of_placement? hplace
    rw [reading, markOrigin_of_ne horg, heffect] at h
    cases h

theorem not_resumes_of_error {e : RecordError} (h : p.reading r = .error e) : ¬ r.Resumes := by
  rintro ⟨horg, hblank⟩
  rw [reading, effect, horg] at h
  dsimp only at h
  rw [origin_of_blank hblank] at h
  cases h

/-- The ways in which reading `r` may move the counter of `p`. -/
inductive Moves (p : Pass) (r : Record) (q : Pass) : Prop
  | place (a : Placement) (hplace : p.placement? r p.counter = some a)
      (hcounter : q.counter.toInt = a.stop)
      (hhigh : q.highWater.toInt = max p.highWater.toInt a.stop)
  | resume (hplace : p.placement? r p.counter = none) (hresumes : r.Resumes)
      (hcounter : q.counter = p.highWater) (hhigh : q.highWater = p.highWater)
  | jump (hplace : p.placement? r p.counter = none) (hjumps : r.Jumps)
      (hnonneg : 0 ≤ q.counter.toInt)
      (hhigh : q.highWater.toInt = max p.highWater.toInt q.counter.toInt)
  | stay (hplace : p.placement? r p.counter = none) (hresumes : ¬ r.Resumes)
      (hcounter : q.counter = p.counter) (hhigh : q.highWater = p.highWater)

theorem moves_forward (p : Pass) (r : Record) : p.Moves r (p.forward r) := by
  cases he : p.reading r with
  | error e =>
    -- the record fails or waits
    obtain ⟨hcounter, hhigh⟩ := counters_of_error he
    exact .stay (placement?_of_error he) (not_resumes_of_error he) hcounter hhigh
  | ok effect =>
    obtain ⟨hstay, hmove⟩ := counters_of_ok he
    rcases effect_cases he with ⟨a, area, hplace, rfl, -, hstop⟩ | ⟨hequ, n, rfl⟩ |
      ⟨horg, n, hn, rfl⟩ | ⟨hdsect, rfl⟩
    · -- storage
      obtain ⟨hcounter, hhigh⟩ := hmove _ rfl
      rw [markOrigin_of_ne (ne_org_of_placement? hplace)] at hplace
      rw [← hcounter] at hstop
      rw [← hcounter, hstop] at hhigh
      exact .place a hplace hstop hhigh
    · -- an `EQU`
      obtain ⟨hcounter, hhigh⟩ := hstay rfl
      exact .stay (placement?_of_ne (by rw [hequ]; decide))
        (fun hr => by cases hequ.symm.trans hr.1) hcounter hhigh
    · -- an `ORG`; without operand it moves to the mark, which stays
      obtain ⟨hcounter, hhigh⟩ := hmove n rfl
      have hplace : p.placement? r p.counter = none := placement?_of_ne (by rw [horg]; decide)
      cases hblank : Text.isBlankText r.operand with
      | true =>
        rw [origin_of_blank hblank, markOrigin_eq] at hn
        cases hn
        rw [Int.max_self] at hhigh
        exact .resume hplace ⟨horg, hblank⟩ hcounter (Int64.toInt_inj.1 hhigh)
      | false =>
        have hnonneg := origin_nonneg hblank hn
        rw [← hcounter] at hnonneg hhigh
        exact .jump hplace ⟨horg, hblank⟩ hnonneg hhigh
    · -- a `DSECT`
      obtain ⟨hcounter, hhigh⟩ := hstay rfl
      exact .stay (placement?_of_ne (by rw [hdsect]; decide))
        (fun hr => by cases hdsect.symm.trans hr.1) hcounter hhigh

theorem highWater_le_forward (p : Pass) (r : Record) :
    p.highWater.toInt ≤ (p.forward r).highWater.toInt := by
  cases moves_forward p r with
  | place a hplace hcounter hhigh => omega
  | resume hplace hresumes hcounter hhigh => exact Int.le_of_eq (congrArg Int64.toInt hhigh.symm)
  | jump hplace hjumps hnonneg hhigh => omega
  | stay hplace hresumes hcounter hhigh => exact Int.le_of_eq (congrArg Int64.toInt hhigh.symm)

theorem stop_le_highWater_forward (h : p.placement? r p.counter = some a) :
    a.stop ≤ (p.forward r).highWater.toInt := by
  cases moves_forward p r with
  | place b hplace hcounter hhigh =>
    rw [h] at hplace
    cases hplace
    omega
  | resume hplace _ _ _ => rw [h] at hplace; cases hplace
  | jump hplace _ _ _ => rw [h] at hplace; cases hplace
  | stay hplace _ _ _ => rw [h] at hplace; cases hplace

/-- The counter, also where it is kept for later, lies between zero and the high-water mark. -/
structure Bounded (p : Pass) : Prop where
  nonneg : 0 ≤ p.counter.toInt
  le : p.counter.toInt ≤ p.highWater.toInt
  queue : ∀ d ∈ p.queue, 0 ≤ d.counter.toInt ∧ d.counter.toInt ≤ p.highWater.toInt

theorem start_bounded (registers : RegisterTable) (table : SymbolTable) (context : String) :
    (start registers table context).Bounded where
  nonneg := Int.le_refl 0
  le := Int.le_refl 0
  queue _ h := by cases h

theorem mem_queue_forward {d : Deferred} (h : d ∈ (p.forward r).queue) :
    d ∈ p.queue ∨ d.counter = p.counter := by
  unfold queue at h ⊢
  by_cases hd : p.Defers r
  · obtain ⟨hequ, hstorage⟩ := queues_defer p r
    rw [hd.forward, hequ, hstorage] at h
    split at h
    · simp only [List.mem_append, List.mem_singleton, List.append_nil] at h ⊢
      rcases h with (h | rfl) | h
      · exact .inl (.inl h)
      · exact .inr rfl
      · exact .inl (.inr h)
    · simp only [List.mem_append, List.mem_singleton, List.append_nil] at h ⊢
      rcases h with h | h | rfl
      · exact .inl (.inl h)
      · exact .inl (.inr h)
      · exact .inr rfl
  · obtain ⟨hequ, hstorage⟩ := queues_forward_of_not hd
    rw [hequ, hstorage] at h
    exact .inl h

theorem Bounded.forward (h : p.Bounded) (r : Record) : (p.forward r).Bounded := by
  have hnonneg := h.nonneg
  have hle := h.le
  have hcounter : 0 ≤ (p.forward r).counter.toInt ∧
      (p.forward r).counter.toInt ≤ (p.forward r).highWater.toInt := by
    cases moves_forward p r with
    | place a hplace hcounter hhigh =>
      obtain ⟨-, hstart, -⟩ := placement?_bounds hplace
      have hstop := a.start_le_stop
      omega
    | resume hplace hresumes hcounter hhigh => rw [hcounter, hhigh]; omega
    | jump hplace hjumps hnonneg hhigh => omega
    | stay hplace hresumes hcounter hhigh => rw [hcounter, hhigh]; exact ⟨hnonneg, hle⟩
  refine ⟨hcounter.1, hcounter.2, fun d hd => ?_⟩
  have hgrows := highWater_le_forward p r
  rcases mem_queue_forward hd with hd | hd
  · have hbounds := h.queue d hd
    omega
  · rw [hd]
    omega

theorem Bounded.foldl_forward (h : p.Bounded) (rs : List Record) :
    (rs.foldl Pass.forward p).Bounded := by
  induction rs generalizing p with
  | nil => exact h
  | cons r rs ih => exact ih (h.forward r)

theorem highWater_le_foldl_forward (p : Pass) (rs : List Record) :
    p.highWater.toInt ≤ (rs.foldl forward p).highWater.toInt := by
  induction rs generalizing p with
  | nil => exact Int.le_refl _
  | cons r rs ih => exact Int.le_trans (highWater_le_forward p r) (ih (p.forward r))

/-- The high-water mark follows the counter up, and only up. -/
theorem Bounded.highWater_forward (h : p.Bounded) (r : Record) :
    (p.forward r).highWater.toInt = max p.highWater.toInt (p.forward r).counter.toInt := by
  have hle := h.le
  cases moves_forward p r with
  | place a hplace hcounter hhigh => rw [hcounter, hhigh]
  | resume hplace hresumes hcounter hhigh => rw [hcounter, hhigh, Int.max_self]
  | jump hplace hjumps hnonneg hhigh => exact hhigh
  | stay hplace hresumes hcounter hhigh => rw [hcounter, hhigh]; omega

/-- The high-water mark is the highest of the values that the counter has had. -/
theorem Bounded.highWater_isGreatest (h : p.Bounded) (rs : List Record) :
    IsGreatest {n : Int | n = p.highWater.toInt ∨
        ∃ seen, seen <+: rs ∧ n = (seen.foldl Pass.forward p).counter.toInt}
      (rs.foldl Pass.forward p).highWater.toInt := by
  induction rs using List.reverseRecOn with
  | nil =>
    have hle := h.le
    refine ⟨.inl rfl, ?_⟩
    rintro n (rfl | ⟨seen, hseen, rfl⟩)
    · exact Int.le_refl _
    · rw [List.prefix_nil.1 hseen]
      exact hle
  | append_singleton rs r ih =>
    obtain ⟨hmem, hupper⟩ := ih
    have hmax := (h.foldl_forward rs).highWater_forward r
    rw [List.foldl_append, List.foldl_cons, List.foldl_nil]
    constructor
    · -- the mark stays where it is or goes where the counter goes
      rcases Int.le_total ((rs.foldl Pass.forward p).forward r).counter.toInt
        (rs.foldl Pass.forward p).highWater.toInt with hle | hle
      · rw [hmax, Int.max_eq_left hle]
        rcases hmem with hmem | ⟨seen, hseen, hmem⟩
        · exact .inl hmem
        · exact .inr ⟨seen, hseen.trans (List.prefix_append rs [r]), hmem⟩
      · rw [hmax, Int.max_eq_right hle]
        refine .inr ⟨rs ++ [r], List.prefix_rfl, ?_⟩
        rw [List.foldl_append]
        rfl
    · -- a value of the counter is the new one or an earlier one
      rintro n (rfl | ⟨seen, hseen, rfl⟩)
      · have hle := hupper (.inl rfl)
        omega
      · rcases List.prefix_concat_iff.1 hseen with rfl | hseen
        · rw [List.foldl_append, List.foldl_cons, List.foldl_nil]
          omega
        · have hle := hupper (.inr ⟨seen, hseen, rfl⟩)
          omega

/-! ### Storage behind the counter -/

/-- The storage that is placed when records are read for the first time. -/
def placements (p : Pass) : List Record → List Placement
  | [] => []
  | r :: rs => (p.placement? r p.counter).toList ++ (p.forward r).placements rs

theorem filterMap_visitsFrom (p : Pass) (k : Nat) (rs : List Record) :
    (p.visitsFrom k rs).filterMap Visit.placement? = p.placements rs := by
  induction rs generalizing p k with
  | nil => rfl
  | cons r rs ih =>
    have hplace : (p.visit k r).placement? = p.placement? r p.counter := rfl
    rw [visitsFrom, List.filterMap_cons, ih, placements, hplace]
    cases p.placement? r p.counter <;> rfl

theorem stop_le_highWater (h : a ∈ p.placements rs) :
    a.stop ≤ (rs.foldl forward p).highWater.toInt := by
  induction rs generalizing p with
  | nil => cases h
  | cons r rs ih =>
    rcases List.mem_append.1 h with h | h
    · exact Int.le_trans (stop_le_highWater_forward (Option.mem_toList.1 h))
        (highWater_le_foldl_forward (p.forward r) rs)
    · exact ih h

/-- The counter has never been higher. -/
def AtTop (p : Pass) : Prop := p.counter.toInt = p.highWater.toInt

theorem AtTop.forward (h : p.AtTop) (hr : ¬ r.Jumps) : (p.forward r).AtTop := by
  unfold AtTop at h ⊢
  cases moves_forward p r with
  | place a hplace hcounter hhigh =>
    obtain ⟨-, hstart, -⟩ := placement?_bounds hplace
    have hstop := a.start_le_stop
    omega
  | resume hplace hresumes hcounter hhigh => rw [hcounter, hhigh]
  | jump hplace hjumps hnonneg hhigh => exact absurd hjumps hr
  | stay hplace hresumes hcounter hhigh => rw [hcounter, hhigh]; exact h

theorem AtTop.foldl_forward (h : p.AtTop) (hrs : ∀ r ∈ rs, ¬ r.Jumps) :
    (rs.foldl Pass.forward p).AtTop := by
  induction rs generalizing p with
  | nil => exact h
  | cons r rs ih =>
    exact ih (h.forward (hrs r (by simp))) fun x hx => hrs x (by simp [hx])

theorem atTop_of_resumes (h : r.Resumes) : (p.forward r).AtTop := by
  unfold AtTop
  cases moves_forward p r with
  | place a hplace hcounter hhigh => exact absurd h.1 (ne_org_of_placement? hplace)
  | resume hplace hresumes hcounter hhigh => rw [hcounter, hhigh]
  | jump hplace hjumps hnonneg hhigh =>
    have hblank := hjumps.2
    rw [h.2] at hblank
    cases hblank
  | stay hplace hresumes hcounter hhigh => exact absurd h hresumes

/-- At any point of a pass the counter lies between zero and the high-water mark, as do the counters
of the records set aside, and the mark is the highest value that the counter has had, past all
storage. So storage that follows an `ORG` without operand, up to an `ORG` with one, lies behind all
storage before it. -/
theorem foldl_forward_counters (registers : RegisterTable) (table : SymbolTable) (context : String)
    (seen : List Record) :
    let first := start registers table context
    let p := seen.foldl forward first
    (0 ≤ p.counter.toInt ∧ p.counter.toInt ≤ p.highWater.toInt ∧
        p.highWater.toInt ≤ 9223372036854775807) ∧
      IsGreatest {n : Int | n = 0 ∨
        ∃ earlier, earlier <+: seen ∧ n = (earlier.foldl forward first).counter.toInt}
        p.highWater.toInt ∧
      (∀ a ∈ first.placements seen, a.stop ≤ p.highWater.toInt) ∧
      (∀ d ∈ p.deferredEqu ++ p.deferredStorage,
        0 ≤ d.counter.toInt ∧ d.counter.toInt ≤ p.highWater.toInt) ∧
      ∀ before org since, seen = before ++ org :: since → org.Resumes →
        (∀ r ∈ since, ¬ r.Jumps) → ∀ r a, p.placement? r p.counter = some a →
          ∀ b ∈ first.placements seen, b.stop ≤ a.start := by
  intro first p
  have hfirst : first.Bounded := start_bounded registers table context
  have hp : p.Bounded := hfirst.foldl_forward seen
  refine ⟨⟨hp.nonneg, hp.le, Int64.toInt_le _⟩, hfirst.highWater_isGreatest seen,
    fun a => stop_le_highWater, hp.queue, ?_⟩
  intro before org since hseen hresumes hjumps r a hplace b hb
  -- the `ORG` took the counter to the mark, and no record since has taken it away
  have htop : p.AtTop := by
    have hsince := (atTop_of_resumes (p := before.foldl forward first) hresumes).foldl_forward hjumps
    show (seen.foldl forward first).AtTop
    rw [hseen, List.foldl_append]
    exact hsince
  obtain ⟨-, hstart, -⟩ := placement?_bounds hplace
  have hstop : b.stop ≤ p.highWater.toInt := stop_le_highWater hb
  unfold AtTop at htop
  omega

/-- Twelve bytes are laid out anew as a word, then the pass goes on behind them. -/
theorem foldl_forward_counters_overlay :
    let first := start .standard (.empty true) "REC"
    let before : List Record := [⟨some "A", .ds, "CL12"⟩, ⟨none, .org, "A"⟩, ⟨some "B", .ds, "F"⟩]
    let seen := before ++ ⟨none, .org, ""⟩ :: [⟨some "C", .ds, "CL3"⟩]
    let p := seen.foldl forward first
    (first.placements seen).map (fun a => (a.start, a.stop)) = [(0, 12), (0, 4), (12, 15)] ∧
      p.counter.toInt ≤ p.highWater.toInt ∧
      ∃ a, p.placement? ⟨some "D", .ds, "F"⟩ p.counter = some a ∧ a.start = 16 ∧
        ∀ b ∈ first.placements seen, b.stop ≤ a.start := by
  intro first before seen p
  obtain ⟨⟨-, hle, -⟩, -, -, -, hbehind⟩ := foldl_forward_counters .standard (.empty true) "REC" seen
  refine ⟨by decide +kernel, hle, ?_⟩
  have hstart : (p.placement? ⟨some "D", .ds, "F"⟩ p.counter).map Placement.start = some 16 := by
    decide +kernel
  obtain ⟨a, hplace, hstart⟩ := Option.map_eq_some_iff.1 hstart
  exact ⟨a, hplace, hstart, hbehind before ⟨none, .org, ""⟩ [⟨some "C", .ds, "CL3"⟩] rfl
    (by decide +kernel) (by decide +kernel) _ a hplace⟩

/-- Storage lies on its boundaries from `lo` to `hi`, with no more room between than that takes. -/
def Packed : Int → List Placement → Int → Prop
  | lo, [], hi => lo = hi
  | lo, a :: as, hi =>
    (a.boundary ∣ a.start ∧ lo ≤ a.start ∧ a.start < lo + a.boundary) ∧ Packed a.stop as hi

theorem packed_placements (horg : ∀ r ∈ rs, r.directive ≠ .org) :
    Packed p.counter.toInt (p.placements rs) (rs.foldl forward p).counter.toInt := by
  induction rs generalizing p with
  | nil => rfl
  | cons r rs ih =>
    have hrest := ih (p := p.forward r) fun x hx => horg x (by simp [hx])
    have hr := horg r (by simp)
    rw [List.foldl_cons, placements]
    cases moves_forward p r with
    | place a hplace hcounter hhigh =>
      rw [hcounter] at hrest
      rw [hplace]
      exact ⟨placement?_bounds hplace, hrest⟩
    | resume hplace hresumes hcounter hhigh => exact absurd hresumes.1 hr
    | jump hplace hjumps hnonneg hhigh => exact absurd hjumps.1 hr
    | stay hplace hresumes hcounter hhigh =>
      rw [hcounter] at hrest
      rw [hplace]
      exact hrest

namespace Packed

variable {lo hi stop : Int} {as : List Placement}

theorem bounds_of_mem_zip (h : Packed lo as hi)
    (hmem : (stop, a) ∈ (lo :: as.map Placement.stop).zip as) :
    a.boundary ∣ a.start ∧ stop ≤ a.start ∧ a.start < stop + a.boundary := by
  induction as generalizing lo with
  | nil => cases hmem
  | cons b as ih =>
    rcases List.mem_cons.1 hmem with heq | hmem
    · cases heq
      exact h.1
    · exact ih h.2 hmem

theorem le_start (h : Packed lo as hi) (hmem : a ∈ as) : lo ≤ a.start := by
  induction as generalizing lo with
  | nil => cases hmem
  | cons b as ih =>
    obtain ⟨-, hlo, -⟩ := h.1
    rcases List.mem_cons.1 hmem with rfl | hmem
    · exact hlo
    · have hstop := b.start_le_stop
      have htail := ih h.2 hmem
      omega

theorem pairwise (h : Packed lo as hi) :
    as.Pairwise fun a b => a.start ≤ a.stop ∧ a.stop ≤ b.start := by
  induction as generalizing lo with
  | nil => exact .nil
  | cons a as ih =>
    exact .cons (fun b hb => ⟨a.start_le_stop, h.2.le_start hb⟩) (ih h.2)

theorem eq_getLastD (h : Packed lo as hi) : hi = (as.map Placement.stop).getLastD lo := by
  induction as generalizing lo with
  | nil => exact h.symm
  | cons a as ih =>
    rw [List.map_cons, List.getLastD_cons]
    exact ih h.2

end Packed
end Pass
end AsmLayout
