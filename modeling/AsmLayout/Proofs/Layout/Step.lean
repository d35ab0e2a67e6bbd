import AsmLayout.Layout.Pass
import AsmLayout.Proofs.Storage

/-!
# The steps of a pass

What reading one record does to a pass. Main statements: `Pass.forward_cases` and
`Pass.retryRecord_cases` (the outcomes of a first and of a second reading) and
`Pass.forward_writes`, `Pass.retryRecord_writes` (either defines the label of its record at most).
-/

namespace AsmLayout

namespace SymbolTable

variable {t t' : SymbolTable} {context : String} {label : Option String}

/-- The table `t'` is `t`, or `t` with the label defined in the context. -/
def Writes (t : SymbolTable) (context : String) (label : Option String) (t' : SymbolTable) : Prop :=
  t' = t ∨ ∃ l displacement length, label = some l ∧ t' = t.define context l displacement length

/-- The tables differ in the entries of one context at most. -/
structure SameOutside (t : SymbolTable) (context : String) (t' : SymbolTable) : Prop where
  foldCase : t'.foldCase = t.foldCase
  get? : ∀ key, key.1 ≠ t.normalize context → t'.get? key = t.get? key

theorem SameOutside.refl (t : SymbolTable) (context : String) : t.SameOutside context t :=
  ⟨rfl, fun _ _ => rfl⟩

theorem SameOutside.trans {t'' : SymbolTable} (h : t.SameOutside context t')
    (h' : t'.SameOutside context t'') : t.SameOutside context t'' :=
  ⟨h'.foldCase.trans h.foldCase, fun key hne =>
    (h'.get? key (by rwa [normalize_congr h.foldCase])).trans (h.get? key hne)⟩

theorem Writes.sameOutside (h : t.Writes context label t') : t.SameOutside context t' := by
  rcases h with rfl | ⟨l, d, n, -, rfl⟩
  · exact .refl _ _
  refine ⟨foldCase_define, fun key hne => ?_⟩
  rw [get?_define, if_neg]
  rintro rfl
  exact hne rfl

end SymbolTable

namespace Pass

variable {p : Pass} {r : Record} {d : Deferred} {effect : Effect} {e : RecordError}

theorem define_writes (p : Pass) (label : Option String) (displacement : Int64) (length : UInt32) :
    p.table.Writes p.context label (p.define label displacement length).table := by
  cases label with
  | none => exact .inl rfl
  | some l => exact .inr ⟨l, displacement, length, rfl, rfl⟩

theorem define_eq (p : Pass) (label : Option String) (displacement : Int64) (length : UInt32) :
    p.define label displacement length =
      { p with table := (p.define label displacement length).table } := by
  cases label <;> rfl

theorem settle_writes (p : Pass) (r : Record) (effect : Effect) :
    p.table.Writes p.context r.label (p.settle r effect).table := by
  unfold settle
  split
  · exact define_writes p r.label _ _
  · exact .inl rfl

theorem settle_eq (p : Pass) (r : Record) (effect : Effect) :
    p.settle r effect = { p with table := (p.settle r effect).table } := by
  unfold settle
  split
  · exact define_eq p r.label _ _
  · rfl

theorem markOrigin_eq (p : Pass) (r : Record) :
    p.markOrigin r = { p with table := (p.markOrigin r).table } := by
  unfold markOrigin
  split
  · exact define_eq p r.label _ _
  · rfl

theorem markOrigin_of_ne (h : r.directive ≠ .org) : p.markOrigin r = p := if_neg h

theorem advance_eq (p : Pass) (effect : Effect) :
    p.advance effect = { p with
      counter := (p.advance effect).counter
      highWater := (p.advance effect).highWater } := by
  unfold advance
  split <;> rfl

/-- What a record that is read for the first time comes to. -/
def reading (p : Pass) (r : Record) : Except RecordError Effect :=
  (p.markOrigin r).effect r p.counter

/-- The record is set aside when it is read for the first time. -/
def Defers (p : Pass) (r : Record) : Prop :=
  ∃ e, p.reading r = .error e ∧ e.isForwardReference = true ∧ r.directive.mayWait = true

theorem counter_markOrigin : (p.markOrigin r).counter = p.counter := by rw [markOrigin_eq]

theorem forward_eq (p : Pass) (r : Record) :
    p.forward r = match p.reading r with
      | .ok effect => ((p.markOrigin r).settle r effect).advance effect
      | .error e =>
        if e.isForwardReference && r.directive.mayWait then (p.markOrigin r).defer r
        else (p.markOrigin r).report r e := by
  rw [reading, ← counter_markOrigin (p := p) (r := r)]
  rfl

theorem forward_of_ok (h : p.reading r = .ok effect) :
    p.forward r = ((p.markOrigin r).settle r effect).advance effect := by
  rw [forward_eq, h]

theorem Defers.forward (h : p.Defers r) : p.forward r = p.defer r := by
  obtain ⟨e, he, hf, hw⟩ := h
  have hmark : p.markOrigin r = p := markOrigin_of_ne (by rintro horg; rw [horg] at hw; cases hw)
  rw [forward_eq, he]
  simp only [hmark, hf, hw, Bool.and_self, if_true]

theorem forward_of_error (h : p.reading r = .error e) (hd : ¬ p.Defers r) :
    p.forward r = (p.markOrigin r).report r e := by
  have hwait : (e.isForwardReference && r.directive.mayWait) = false := by
    rw [Bool.eq_false_iff, Ne, Bool.and_eq_true]
    exact fun hw => hd ⟨e, h, hw.1, hw.2⟩
  rw [forward_eq, h]
  simp only [hwait, Bool.false_eq_true, if_false]

theorem forward_cases (p : Pass) (r : Record) :
    (∃ effect, p.reading r = .ok effect ∧
      p.forward r = ((p.markOrigin r).settle r effect).advance effect) ∨
    (p.Defers r ∧ p.forward r = p.defer r) ∨
    (∃ e, p.reading r = .error e ∧ ¬ p.Defers r ∧ p.forward r = (p.markOrigin r).report r e) := by
  by_cases hd : p.Defers r
  · exact .inr (.inl ⟨hd, hd.forward⟩)
  cases h : p.reading r with
  | ok effect => exact .inl ⟨effect, rfl, forward_of_ok h⟩
  | error e => exact .inr (.inr ⟨e, rfl, hd, forward_of_error h hd⟩)

theorem retryRecord_cases (p : Pass) (d : Deferred) :
    (∃ effect, p.effect d.record d.counter = .ok effect ∧
      p.retryRecord d = p.settle d.record effect) ∨
    (∃ e, p.effect d.record d.counter = .error e ∧ p.retryRecord d = p.report d.record e) := by
  unfold retryRecord
  cases p.effect d.record d.counter with
  | ok effect => exact .inl ⟨effect, rfl, rfl⟩
  | error e => exact .inr ⟨e, rfl, rfl⟩

/-- An `ORG` defines its label before its operand is read, and nothing afterwards. -/
theorem settle_markOrigin_of_org (horg : r.directive = .org) (h : p.reading r = .ok effect) :
    (p.markOrigin r).settle r effect = p.markOrigin r := by
  unfold reading Pass.effect at h
  simp only [horg] at h
  cases ho : (p.markOrigin r).origin r.operand p.counter with
  | error e => rw [ho] at h; cases h
  | ok target => rw [ho] at h; cases h; rfl

theorem markOrigin_writes (p : Pass) (r : Record) :
    p.table.Writes p.context r.label (p.markOrigin r).table := by
  unfold markOrigin
  split
  · exact define_writes p r.label _ _
  · exact .inl rfl

theorem defer_fixed (p : Pass) (r : Record) :
    (p.defer r).context = p.context ∧ (p.defer r).table = p.table := by
  unfold defer
  dsimp only
  split <;> exact ⟨rfl, rfl⟩

theorem forward_writes (p : Pass) (r : Record) :
    p.table.Writes p.context r.label (p.forward r).table := by
  rcases forward_cases p r with ⟨effect, h, heq⟩ | ⟨-, heq⟩ | ⟨e, -, -, heq⟩
  · rw [heq, advance_eq]
    by_cases horg : r.directive = .org
    · rw [settle_markOrigin_of_org horg h]; exact markOrigin_writes p r
    · rw [markOrigin_of_ne horg]; exact settle_writes p r effect
  · rw [heq]; exact .inl (defer_fixed p r).2
  · rw [heq]; exact markOrigin_writes p r

theorem retryRecord_writes (p : Pass) (d : Deferred) :
    p.table.Writes p.context d.record.label (p.retryRecord d).table := by
  rcases retryRecord_cases p d with ⟨effect, -, heq⟩ | ⟨e, -, heq⟩
  · rw [heq]; exact settle_writes p d.record effect
  · rw [heq]; exact .inl rfl

@[simp] theorem context_forward (p : Pass) (r : Record) : (p.forward r).context = p.context := by
  rcases forward_cases p r with ⟨effect, -, heq⟩ | ⟨-, heq⟩ | ⟨e, -, -, heq⟩
  · rw [heq, advance_eq, settle_eq, markOrigin_eq]
  · rw [heq]; exact (defer_fixed p r).1
  · rw [heq, markOrigin_eq]; rfl

/-- A second reading moves no counter and sets nothing aside. -/
theorem retryRecord_eq (p : Pass) (d : Deferred) :
    p.retryRecord d = { p with
      table := (p.retryRecord d).table
      diagnostics := (p.retryRecord d).diagnostics } := by
  rcases retryRecord_cases p d with ⟨effect, -, heq⟩ | ⟨e, -, heq⟩
  · rw [heq, settle_eq]
  · rw [heq]; rfl

@[simp] theorem context_retryRecord (p : Pass) (d : Deferred) :
    (p.retryRecord d).context = p.context := by
  rw [retryRecord_eq]

@[simp] theorem context_foldl_forward (p : Pass) (rs : List Record) :
    (rs.foldl forward p).context = p.context := by
  induction rs generalizing p with
  | nil => rfl
  | cons r rs ih => rw [List.foldl_cons, ih, context_forward]

theorem foldl_retryRecord_eq (p : Pass) (ds : List Deferred) :
    ds.foldl retryRecord p = { p with
      table := (ds.foldl retryRecord p).table
      diagnostics := (ds.foldl retryRecord p).diagnostics } := by
  induction ds generalizing p with
  | nil => rfl
  | cons d ds ih => rw [List.foldl_cons, ih, retryRecord_eq]

@[simp] theorem context_foldl_retryRecord (p : Pass) (ds : List Deferred) :
    (ds.foldl retryRecord p).context = p.context := by
  rw [foldl_retryRecord_eq]

end Pass
end AsmLayout
