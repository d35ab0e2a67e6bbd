import AsmLayout.Proofs.Layout.Conclusions

/-!
# Where storage is placed

A `DS` or `DC` that is read without complaint gets an area: it begins at the first suitable boundary
from the counter on, and is as long as the operand says. Main statements: `Pass.effect_cases` (all
that reading a record can come to) and `Visit.Concludes.exists_placement` (where a storage record
ends without complaint, its storage has a place).
-/

namespace AsmLayout

theorem TypeCode.byteSize_pos (t : TypeCode) : 0 < t.byteSize.toNat := by cases t <;> decide

/-- Alignment goes to the first multiple from the value on. -/
theorem alignUp_eq_some {value aligned : Int64} {size : UInt32} (hsize : 0 < size.toNat)
    (h : alignUp value size = some aligned) :
    (size.toNat : Int) ∣ aligned.toInt ∧ value.toInt ≤ aligned.toInt ∧
      aligned.toInt < value.toInt + size.toNat := by
  have hne : size ≠ 0 := by rintro rfl; exact absurd hsize (by decide)
  rw [alignUp, if_neg hne, int64?_eq_some_iff] at h
  have hnonneg := Int.emod_nonneg (-value.toInt) (b := size.toNat) (by omega)
  have hlt := Int.emod_lt_of_pos (-value.toInt) (b := size.toNat) (by omega)
  rw [h]
  refine ⟨?_, by omega, by omega⟩
  have hdiv := Int.mul_ediv_add_emod (-value.toInt) size.toNat
  exact ⟨-(-value.toInt / size.toNat), by rw [Int.mul_neg]; omega⟩

theorem StorageOperand.totalLength?_eq_some {op : StorageOperand} {n : Int64}
    (h : op.totalLength? = some n) : n.toInt = op.duplication.toNat * op.length.toNat := by
  rw [totalLength?, int64?_eq_some_iff] at h
  rw [h, Int.natCast_mul]

theorem StorageOperand.area_stop {op : StorageOperand} {counter : Int64} {area : Area}
    (h : op.area counter = .ok area) :
    area.stop.toInt = area.displacement.toInt + op.duplication.toNat * op.length.toNat := by
  unfold StorageOperand.area at h
  split at h
  · cases h
  · next displacement hdisplacement =>
    split at h
    · cases h
    · next stop hstop =>
      cases h
      obtain ⟨n, hn, hstop⟩ := Option.bind_eq_some_iff.1 hstop
      rw [int64?_eq_some_iff] at hstop
      rw [hstop, totalLength?_eq_some hn]

/-- Storage that has a place: what its operand describes, and the offset of its first byte. -/
structure Placement where
  operand : StorageOperand
  displacement : Int64
  deriving DecidableEq, Repr

namespace Placement

def start (a : Placement) : Int := a.displacement.toInt

/-- The offset just past the last byte. -/
def stop (a : Placement) : Int :=
  a.displacement.toInt + a.operand.duplication.toNat * a.operand.length.toNat

/-- The boundary that the storage is aligned to. -/
def boundary (a : Placement) : Int := a.operand.type.byteSize.toNat

theorem start_le_stop (a : Placement) : a.start ≤ a.stop := by
  unfold start stop
  have h : (0 : Int) ≤ a.operand.duplication.toNat * a.operand.length.toNat :=
    Int.mul_nonneg (Int.natCast_nonneg _) (Int.natCast_nonneg _)
  omega

end Placement

namespace Pass

variable {p : Pass} {r : Record} {counter : Int64} {effect : Effect} {a : Placement}

/-- The place of the storage that a record reserves when it is read at `counter`. -/
def placement? (p : Pass) (r : Record) (counter : Int64) : Option Placement :=
  if r.directive = .ds ∨ r.directive = .dc then do
    let op ← (StorageOperand.decode (p.lookups counter) r.operand).toOption
    let area ← (op.area counter).toOption
    some ⟨op, area.displacement⟩
  else none

theorem placement?_of_ne (h : ¬ (r.directive = .ds ∨ r.directive = .dc)) :
    p.placement? r counter = none := if_neg h

theorem placement?_eq_some_iff : p.placement? r counter = some a ↔
    (r.directive = .ds ∨ r.directive = .dc) ∧
      StorageOperand.decode (p.lookups counter) r.operand = .ok a.operand ∧
      ∃ area, a.operand.area counter = .ok area ∧ area.displacement = a.displacement := by
  by_cases hdir : r.directive = .ds ∨ r.directive = .dc
  · rw [placement?, if_pos hdir]
    cases hop : StorageOperand.decode (p.lookups counter) r.operand with
    | error e => simp [Except.toOption]
    | ok op =>
      constructor
      · intro h
        cases harea : op.area counter with
        | error e => simp [Except.toOption, harea] at h
        | ok area =>
          simp only [Except.toOption, harea, Option.bind_eq_bind, Option.bind_some,
            Option.some.injEq] at h
          subst h
          exact ⟨hdir, rfl, area, harea, rfl⟩
      · rintro ⟨-, hop', area, harea, hdisplacement⟩
        cases hop'
        simp only [Except.toOption, harea, Option.bind_eq_bind, Option.bind_some, hdisplacement]
  · rw [placement?_of_ne hdir]
    simp [hdir]

theorem ne_org_of_placement? (h : p.placement? r counter = some a) : r.directive ≠ .org := by
  obtain ⟨hdir, -, -⟩ := placement?_eq_some_iff.1 h
  rintro horg
  rw [horg] at hdir
  rcases hdir with hdir | hdir <;> cases hdir

/-- Storage lies on its boundary, as close to the counter as it can. -/
theorem placement?_bounds (h : p.placement? r counter = some a) :
    a.boundary ∣ a.start ∧ counter.toInt ≤ a.start ∧ a.start < counter.toInt + a.boundary := by
  obtain ⟨-, -, area, harea, hdisplacement⟩ := placement?_eq_some_iff.1 h
  have halign := area_eq_ok harea
  rw [hdisplacement] at halign
  exact alignUp_eq_some (TypeCode.byteSize_pos _) halign

theorem effect_of_storage (hdir : r.directive = .ds ∨ r.directive = .dc) :
    p.effect r counter = p.storage r.operand counter := by
  unfold effect
  rcases hdir with hdir | hdir <;> rw [hdir]

theorem effect_places (hdir : r.directive = .ds ∨ r.directive = .dc)
    (h : p.effect r counter = .ok effect) :
    ∃ a area, p.placement? r counter = some a ∧ effect = .place area a.operand.length ∧
      area.displacement = a.displacement ∧ area.stop.toInt = a.stop := by
  rw [effect_of_storage hdir] at h
  obtain ⟨op, area, hop, harea, rfl⟩ := storage_eq_ok h
  exact ⟨⟨op, area.displacement⟩, area, placement?_eq_some_iff.2 ⟨hdir, hop, area, harea, rfl⟩, rfl,
    rfl, StorageOperand.area_stop harea⟩

theorem effect_of_placement? (h : p.placement? r counter = some a) :
    ∃ area, p.effect r counter = .ok (.place area a.operand.length) ∧
      area.displacement = a.displacement := by
  obtain ⟨hdir, hop, area, harea, hdisplacement⟩ := placement?_eq_some_iff.1 h
  refine ⟨area, ?_, hdisplacement⟩
  rw [effect_of_storage hdir, storage, hop]
  simp only [Except.mapError, bind, Except.bind, harea]

theorem effect_cases (h : p.effect r counter = .ok effect) :
    (∃ a area, p.placement? r counter = some a ∧ effect = .place area a.operand.length ∧
        area.displacement = a.displacement ∧ area.stop.toInt = a.stop) ∨
      (r.directive = .equ ∧ ∃ n, effect = .assign n 1) ∨
      (r.directive = .org ∧ ∃ n, p.origin r.operand counter = .ok n ∧ effect = .move n) ∨
      (r.directive = .dsect ∧ effect = .assign 0 0) := by
  cases hdir : r.directive with
  | ds => exact .inl (effect_places (.inl hdir) h)
  | dc => exact .inl (effect_places (.inr hdir) h)
  | equ =>
    rw [Pass.effect, hdir] at h
    cases hn : p.number r.operand counter with
    | error e => rw [hn] at h; cases h
    | ok n => rw [hn] at h; cases h; exact .inr (.inl ⟨rfl, n, rfl⟩)
  | org =>
    rw [Pass.effect, hdir] at h
    cases hn : p.origin r.operand counter with
    | error e => rw [hn] at h; cases h
    | ok n => rw [hn] at h; cases h; exact .inr (.inr (.inl ⟨rfl, n, rfl, rfl⟩))
  | dsect => rw [Pass.effect, hdir] at h; cases h; exact .inr (.inr (.inr ⟨rfl, rfl⟩))

end Pass

namespace Visit

variable {v : Visit}

/-- The place of the storage that the record reserves with this visit. -/
def placement? (v : Visit) : Option Placement := v.before.placement? v.record v.counter

/-- The label of storage has values where the storage has a place: the place and the length of one
element. -/
theorem values?_eq_some_iff {displacement : Int64} {length : UInt32}
    (hdir : v.record.directive = .ds ∨ v.record.directive = .dc) :
    v.values? = some (displacement, length) ↔
      ∃ a, v.placement? = some a ∧ a.displacement = displacement ∧ a.operand.length = length := by
  have horg : v.record.directive ≠ .org := by rcases hdir with h | h <;> rw [h] <;> decide
  have houtcome : v.outcome = v.before.effect v.record v.counter := by
    rw [outcome, Pass.markOrigin_of_ne horg]
  constructor
  · intro hvalues
    cases heffect : v.before.effect v.record v.counter with
    | error e =>
      rw [values?_of_error horg (houtcome.trans heffect)] at hvalues
      cases hvalues
    | ok effect =>
      rw [values?_of_ok horg (houtcome.trans heffect)] at hvalues
      obtain ⟨a, area, hplace, rfl, hdisplacement, -⟩ := Pass.effect_places hdir heffect
      cases hvalues
      exact ⟨a, hplace, hdisplacement.symm, rfl⟩
  · rintro ⟨a, hplace, rfl, rfl⟩
    obtain ⟨area, heffect, hdisplacement⟩ := Pass.effect_of_placement? hplace
    rw [values?_of_ok horg (houtcome.trans heffect), ← hdisplacement]
    rfl

/-- A storage record that leaves no diagnostic has a place, which its label is given. -/
theorem Concludes.exists_placement (h : v.Concludes)
    (hdir : v.record.directive = .ds ∨ v.record.directive = .dc) (hnone : v.diagnostics = []) :
    ∃ a, v.placement? = some a ∧ v.values? = some (a.displacement, a.operand.length) := by
  have hmay : v.record.directive.mayWait = true := by rcases hdir with h | h <;> rw [h] <;> rfl
  rcases h.cases_of_mayWait hmay with ⟨displacement, length, hvalues, -, -⟩ | ⟨-, -, d, hd⟩
  · obtain ⟨a, hplace, rfl, rfl⟩ := (values?_eq_some_iff hdir).1 hvalues
    exact ⟨a, hplace, hvalues⟩
  · rw [hnone] at hd
    cases hd

end Visit
end AsmLayout
