import AsmLayout.Proofs.ForwardReference
import AsmLayout.Proofs.Layout.Conclusions

/-!
# Names that are reported as undefined

A record that fails for a name does not find the name in the table (`Pass.effect_unresolved`), and a
table has a key just if it had it before or a visit has defined it
(`Pass.get?_foldl_forward_eq_none_iff`, `Pass.get?_foldl_retryRecord_eq_none_iff`). Main statement:
`Pass.later_undefined` (where a second visit fails for a name, no visit before it has defined the
name).
-/

namespace AsmLayout

/-- The name that the failure reports as undefined. -/
def EvalError.undefinedName? : EvalError → Option String
  | invalidSymbolKey name | invalidLengthKey name => some name
  | _ => none

/-- The name that the failure reports as undefined. What a duplication factor lacks is reported
under another kind. -/
def RecordError.undefinedName? : RecordError → Option String
  | evaluation e | decoding (.length e) => e.undefinedName?
  | _ => none

theorem EvalError.exists_undefinedName {e : EvalError} (h : e.isForwardReference = true) :
    ∃ name, e.undefinedName? = some name := by
  cases e with
  | invalidSymbolKey name => exact ⟨name, rfl⟩
  | invalidLengthKey name => exact ⟨name, rfl⟩
  | _ => cases h

theorem RecordError.exists_undefinedName {e : RecordError} (h : e.isForwardReference = true) :
    ∃ name, e.undefinedName? = some name := by
  cases e with
  | evaluation e => exact EvalError.exists_undefinedName h
  | decoding e =>
    cases e with
    | length e => exact EvalError.exists_undefinedName h
    | _ => cases h
  | negativeOrigin target => cases h

/-- The name that the failure reports as undefined stands for no entry of the table. -/
def RecordError.Unresolved (t : SymbolTable) (context : String) (e : RecordError) : Prop :=
  ∀ name, e.undefinedName? = some name → t.get? (t.target context name) = none

theorem EvalError.Misses.get?_eq_none {e : EvalError} {t : SymbolTable} {context name : String}
    (h : e.Misses (t.symbolsFrom context)) (hname : e.undefinedName? = some name) :
    t.get? (t.target context name) = none := by
  rw [← SymbolTable.target_normalize, ← SymbolTable.resolve?_eq_get?]
  cases e with
  | invalidSymbolKey missing =>
    cases hname
    exact Option.map_eq_none_iff.1 h
  | invalidLengthKey missing =>
    cases hname
    exact Option.map_eq_none_iff.1 h
  | _ => cases hname

theorem StorageOperand.area_failsIn (op : StorageOperand) (counter : Int64) :
    FailsIn (fun e => e.undefinedName? = none) (op.area counter) := by
  unfold StorageOperand.area
  cases alignUp counter op.type.byteSize with
  | none => exact .error rfl
  | some displacement =>
    dsimp only
    split
    · exact .error rfl
    · exact .ok _

namespace Pass

variable {p : Pass} {operand : String} {counter : Int64}

theorem number_unresolved : FailsIn (RecordError.Unresolved p.table p.context)
    (p.number operand counter) := by
  refine .bind (.mapError _ (Expr.evaluate_misses operand) fun e he name hname => ?_) fun o => ?_
  · exact he.get?_eq_none hname
  · split
    · exact .ok _
    · exact .error fun _ hname => nomatch hname

theorem storage_unresolved : FailsIn (RecordError.Unresolved p.table p.context)
    (p.storage operand counter) := by
  refine .bind (.mapError _ (StorageOperand.decode_misses operand) fun e he name hname => ?_)
    fun op => .bind (.mapError _ (op.area_failsIn counter) fun e he name hname => ?_) fun _ => .ok _
  · cases e with
    | length source => exact (he source rfl).get?_eq_none hname
    | _ => cases hname
  · exact absurd (he.symm.trans hname) (Option.some_ne_none name).symm

theorem origin_unresolved : FailsIn (RecordError.Unresolved p.table p.context)
    (p.origin operand counter) := by
  unfold origin
  split
  · exact .ok _
  · refine number_unresolved.bind fun target => ?_
    split
    · exact .error fun _ hname => nomatch hname
    · exact .ok _

/-- A record that fails for a name does not find the name in the table. -/
theorem effect_unresolved (p : Pass) (r : Record) (counter : Int64) :
    FailsIn (RecordError.Unresolved p.table p.context) (p.effect r counter) := by
  unfold effect
  split
  · exact storage_unresolved
  · exact storage_unresolved
  · exact number_unresolved.bind fun _ => .ok _
  · exact origin_unresolved.bind fun _ => .ok _
  · exact .ok _

end Pass

/-- The visit gives a label its values under this key. -/
def Visit.Defines (v : Visit) (key : String × String) : Prop := ∃ e ∈ v.entries, e.key = key

/-- What fails defines nothing, an `ORG` apart. -/
theorem Visit.not_defines_of_error {v : Visit} {e : RecordError} {key : String × String}
    (horg : v.record.directive ≠ .org) (he : v.outcome = .error e) : ¬ v.Defines key := by
  rintro ⟨x, hx, -⟩
  rw [entries, values?_of_error horg he] at hx
  cases hlabel : v.record.label <;> rw [hlabel] at hx <;> cases hx

/-- A visit brings the key that it defines into the table and no other one. -/
theorem Visit.get?_table_eq_none_iff {v : Visit} {key : String × String} :
    v.table.get? key = none ↔ v.before.table.get? key = none ∧ ¬ v.Defines key := by
  unfold Visit.Defines Visit.table Visit.entries
  cases v.values? with
  | none => cases v.record.label <;> simp
  | some values =>
    cases v.record.label with
    | none => simp [Pass.define]
    | some label =>
      show (v.before.table.define v.before.context label values.1 values.2).get? key = none ↔ _
      rw [SymbolTable.get?_define]
      have hkey : ∀ t : SymbolTable,
          (t.made v.before.context label values.1 values.2).key = t.keyOf v.before.context label :=
        fun _ => rfl
      by_cases heq : key = v.before.table.keyOf v.before.context label
      · simp [heq, hkey]
      · simp [heq, hkey, Ne.symm heq]

namespace Pass

variable {p : Pass} {rs : List Record} {vs front back : List Visit} {v : Visit} {e : RecordError}
  {key : String × String} {name : String}

theorem get?_foldl_forward_eq_none_iff (k : Nat) : (rs.foldl forward p).table.get? key = none ↔
    p.table.get? key = none ∧ ∀ u ∈ p.visitsFrom k rs, ¬ u.Defines key := by
  induction rs generalizing p k with
  | nil => simp [visitsFrom]
  | cons r rs ih =>
    rw [List.foldl_cons, ih (k + 1), table_visit p k r, Visit.get?_table_eq_none_iff, visitsFrom,
      List.forall_mem_cons, and_assoc]
    rfl

theorem get?_foldl_retryRecord_eq_none_iff (hmay : ∀ v ∈ vs, v.record.directive.mayWait = true) :
    ((vs.map Visit.deferred).foldl retryRecord p).table.get? key = none ↔
      p.table.get? key = none ∧ ∀ u ∈ p.revisits vs, ¬ u.Defines key := by
  induction vs generalizing p with
  | nil => simp [revisits]
  | cons v vs ih =>
    rw [List.map_cons, List.foldl_cons, ih fun u hu => hmay u (List.mem_cons_of_mem _ hu),
      table_revisit (hmay v List.mem_cons_self), Visit.get?_table_eq_none_iff, revisits,
      List.forall_mem_cons, and_assoc]
    rfl

theorem revisits_eq_append (h : p.revisits vs = front ++ back) : ∃ vs₁ vs₂, vs = vs₁ ++ vs₂ ∧
    front = p.revisits vs₁ ∧
    back = ((vs₁.map Visit.deferred).foldl retryRecord p).revisits vs₂ := by
  induction front generalizing p vs with
  | nil => exact ⟨[], vs, rfl, rfl, h.symm⟩
  | cons w front ih =>
    cases vs with
    | nil => cases h
    | cons u vs =>
      obtain ⟨rfl, htail⟩ := List.cons.inj h
      obtain ⟨vs₁, vs₂, rfl, rfl, rfl⟩ := ih htail
      exact ⟨u :: vs₁, vs₂, rfl, rfl, rfl⟩

/-- A storage record is visited again when all `EQU` records have been. -/
theorem later_split_of_ne_equ (h : p.laterEqus rs ++ p.laterStorage rs = front ++ v :: back)
    (hequ : v.record.directive ≠ .equ) :
    ∃ mid, front = p.laterEqus rs ++ mid ∧ p.laterStorage rs = mid ++ v :: back := by
  rcases List.append_eq_append_iff.1 h with ⟨mid, hfront, hstorage⟩ | ⟨mid, hequs, hback⟩
  · exact ⟨mid, hfront, hstorage⟩
  · cases mid with
    | nil => exact ⟨[], by simpa using hequs.symm, hback.symm⟩
    | cons w mid =>
      obtain ⟨rfl, -⟩ := List.cons.inj hback
      exact absurd (directive_laterEqus (p := p) (by rw [hequs]; simp)) hequ

/-- What is visited after a second visit: storage, or an `EQU` after another. -/
theorem directive_behind {w : Visit}
    (h : p.laterEqus rs ++ p.laterStorage rs = front ++ v :: back) (hw : w ∈ back) :
    w.record.directive = .ds ∨ w.record.directive = .dc ∨
      v.record.directive = .equ ∧ w.record.directive = .equ := by
  by_cases hequ : v.record.directive = .equ
  · have hlater : w ∈ p.laterEqus rs ++ p.laterStorage rs := by
      rw [h]
      exact List.mem_append_right _ (List.mem_cons_of_mem _ hw)
    rcases List.mem_append.1 hlater with hlater | hlater
    · exact .inr (.inr ⟨hequ, directive_laterEqus hlater⟩)
    · exact (directive_laterStorage hlater).imp_right .inl
  · obtain ⟨mid, -, hstorage⟩ := later_split_of_ne_equ h hequ
    have hlater : w ∈ p.laterStorage rs := by
      rw [hstorage]
      exact List.mem_append_right _ (List.mem_cons_of_mem _ hw)
    exact (directive_laterStorage hlater).imp_right .inl

/-- A name keeps its meaning from the first visits to the last of the second ones. -/
theorem target_later (p : Pass) (rs : List Record) (ds : List Deferred) (name : String) :
    let q := ds.foldl retryRecord (rs.foldl forward p)
    q.table.target q.context name = p.table.target p.context name := by
  intro q
  have hforward := (foldl_forward_sameOutside p rs).foldCase
  have hretry := (foldl_retryRecord_sameOutside (rs.foldl forward p) ds).foldCase
  have hcontext : q.context = p.context :=
    (context_foldl_retryRecord _ ds).trans (context_foldl_forward p rs)
  rw [hcontext, SymbolTable.target_congr (hretry.trans hforward)]

/-- Where a second visit fails for a name, neither the first visits nor the second ones before it
have defined the name. After the run it is as unknown as before, or one of the visits behind has
defined it. -/
theorem later_undefined (hlog : p.log = .empty)
    (hsplit : p.laterEqus rs ++ p.laterStorage rs = front ++ v :: back)
    (he : v.outcome = .error e) (hname : e.undefinedName? = some name) :
    let key := p.table.target p.context name
    (p.table.get? key = none ∧ v.before.table.get? key = none ∧
        ∀ u ∈ p.visits rs ++ front, ¬ u.Defines key) ∧
      ((p.run rs).table.get? key = none ∨ ∃ w ∈ back, w.Defines key) := by
  intro key
  rw [later_eq] at hsplit
  obtain ⟨vs₁, vs₂, hvs, rfl, hback⟩ := revisits_eq_append hsplit
  have hmay : ∀ u ∈ vs₁ ++ vs₂, u.record.directive.mayWait = true := fun u hu =>
    Visit.mayWait_of_waits (mem_waiting (by rwa [hvs])).2
  cases vs₂ with
  | nil => cases hback
  | cons u vs₂ =>
    obtain ⟨rfl, rfl⟩ := List.cons.inj hback
    let q := (vs₁.map Visit.deferred).foldl retryRecord (rs.foldl forward p)
    have hu : u.record.directive.mayWait = true := hmay u (by simp)
    have htarget : q.table.target q.context name = key := target_later p rs _ name
    have hnone : q.table.get? key = none := by
      rw [← htarget]
      exact effect_unresolved q u.record u.counter e ((outcome_revisit hu).symm.trans he) name hname
    obtain ⟨hfirst, hfront⟩ := (get?_foldl_retryRecord_eq_none_iff fun w hw =>
      hmay w (List.mem_append_left _ hw)).1 hnone
    obtain ⟨hstart, hvisits⟩ := (get?_foldl_forward_eq_none_iff 0).1 hfirst
    refine ⟨⟨hstart, hnone, fun w hw => (List.mem_append.1 hw).elim (hvisits w) (hfront w)⟩, ?_⟩
    have hrun : p.run rs = ((u :: vs₂).map Visit.deferred).foldl retryRecord q := by
      rw [run_eq hlog, hvs, List.map_append, List.foldl_append]
    by_cases hend : (p.run rs).table.get? key = none
    · exact .inl hend
    · -- one of the visits from the failing one on defines the name, and that one does not
      refine .inr (Classical.byContradiction fun hnever => hend ?_)
      rw [hrun, get?_foldl_retryRecord_eq_none_iff fun w hw => hmay w (List.mem_append_right _ hw)]
      refine ⟨hnone, List.forall_mem_cons.2 ⟨?_, fun w hw hdefines => hnever ⟨w, hw, hdefines⟩⟩⟩
      exact Visit.not_defines_of_error (Visit.ne_org_of_mayWait hu) he

end Pass
end AsmLayout
