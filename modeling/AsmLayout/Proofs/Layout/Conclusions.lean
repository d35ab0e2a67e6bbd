import AsmLayout.Proofs.Layout.Visits

/-!
# How the records of a context end

Every record ends in one visit: the first one, or the second one if it waits. `Pass.conclusions`
lists these visits in the order in which they are made. Main statements:
`Pass.positions_conclusions` (every record has one), `Pass.diagnostics_conclusions` and
`Pass.entries_conclusions` (what a run reports and defines is what the conclusions report and define,
in their order).
-/

namespace AsmLayout

section

variable {α β : Type} {l : List α} {keep : α → Bool} {f : α → List β}

theorem flatMap_filter_of_eq_nil (h : ∀ a ∈ l, keep a = false → f a = []) :
    (l.filter keep).flatMap f = l.flatMap f := by
  induction l with
  | nil => rfl
  | cons a l ih =>
    have htail := ih fun x hx => h x (by simp [hx])
    rw [List.filter_cons, List.flatMap_cons]
    cases hkeep : keep a with
    | true => rw [if_pos rfl, List.flatMap_cons, htail]
    | false => rw [if_neg Bool.false_ne_true, htail, h a (by simp) hkeep, List.nil_append]

/-- A list sorted into three parts. -/
theorem filter_parts_perm (l : List α) (w e : α → Bool) : (l.filter (fun a => !w a) ++
    (l.filter (fun a => w a && e a) ++ l.filter fun a => w a && !e a)).Perm l := by
  have hparts : (l.filter (fun a => w a && e a) ++ l.filter fun a => w a && !e a).Perm
      (l.filter w) := by
    have h := List.filter_append_perm e (l.filter w)
    rw [List.filter_filter, List.filter_filter] at h
    simpa only [Bool.and_comm] using h
  exact (hparts.append_left _).trans (List.perm_append_comm.trans (List.filter_append_perm w l))

end

theorem EvalError.isForwardReference_of_kind {e : EvalError}
    (h : e.kind = .invalidSymbolKey ∨ e.kind = .invalidLengthKey) :
    e.isForwardReference = true := by
  cases e with
  | invalidSymbolKey name => rfl
  | invalidLengthKey name => rfl
  | _ => simp [EvalError.kind] at h

/-- A failure that is reported as an undefined name is one that may wait. -/
theorem RecordError.isForwardReference_of_kind {e : RecordError}
    (h : e.kind = .invalidSymbolKey ∨ e.kind = .invalidLengthKey) :
    e.isForwardReference = true := by
  cases e with
  | evaluation e => exact EvalError.isForwardReference_of_kind h
  | decoding e =>
    cases e with
    | length e => exact EvalError.isForwardReference_of_kind h
    | _ => simp [RecordError.kind, DecodeError.kind] at h
  | negativeOrigin target => simp [RecordError.kind] at h

namespace Visit

variable {v : Visit} {d : Diagnostic}

theorem complaints_of_ok {effect : Effect} (h : v.outcome = .ok effect) : v.complaints = [] := by
  rw [complaints, h]

theorem complaints_of_error {e : RecordError} (h : v.outcome = .error e) :
    v.complaints = [v.before.complaint v.record e] := by
  rw [complaints, h]

theorem mem_complaints (h : d ∈ v.complaints) :
    ∃ e, v.outcome = .error e ∧ d = v.before.complaint v.record e := by
  cases he : v.outcome with
  | ok effect => rw [complaints_of_ok he] at h; cases h
  | error e => rw [complaints_of_error he] at h; exact ⟨e, rfl, List.mem_singleton.1 h⟩

theorem Concludes.length_diagnostics (h : v.Concludes) : v.diagnostics.length ≤ 1 := by
  rw [h.diagnostics]
  cases he : v.outcome with
  | ok effect => rw [complaints_of_ok he]; exact Nat.zero_le 1
  | error e => rw [complaints_of_error he]; exact Nat.le_refl 1

/-- A record that may wait gives its label values, or leaves one diagnostic and nothing else. -/
theorem Concludes.cases_of_mayWait (h : v.Concludes) (hwait : v.record.directive.mayWait = true) :
    (∃ displacement length, v.values? = some (displacement, length) ∧
        v.after.table = (v.before.define v.record.label displacement length).table ∧
        v.diagnostics = []) ∨
      v.values? = none ∧ v.after.table = v.before.table ∧ ∃ d, v.diagnostics = [d] := by
  have horg := ne_org_of_mayWait hwait
  rw [h.table, h.diagnostics]
  cases he : v.outcome with
  | ok effect =>
    obtain ⟨displacement, length, hdefinition, -⟩ := Pass.effect_solves hwait he
    have hvalues := (values?_of_ok horg he).trans hdefinition
    exact .inl ⟨displacement, length, hvalues, table_of_some hvalues, complaints_of_ok he⟩
  | error e =>
    have hvalues := values?_of_error horg he
    exact .inr ⟨hvalues, table_of_none hvalues, _, complaints_of_error he⟩

theorem Concludes.diagnostics_of_dsect (h : v.Concludes) (hdsect : v.record.directive = .dsect) :
    v.diagnostics = [] := by
  have he : v.outcome = .ok (.assign 0 0) := by rw [outcome, Pass.effect, hdsect]
  rw [h.diagnostics, complaints_of_ok he]

theorem Concludes.about (h : v.Concludes) (hd : d ∈ v.diagnostics) :
    d.line = v.record.render ∧ d.context = v.before.context := by
  rw [h.diagnostics] at hd
  obtain ⟨e, -, rfl⟩ := mem_complaints hd
  exact ⟨rfl, rfl⟩

/-- Where an undefined name is reported at once, the record is none that may wait. -/
theorem Concludes.org_of_undefined (h : v.Concludes) (hwaits : v.waits = false)
    (hd : d ∈ v.diagnostics) (hkind : d.kind = .invalidSymbolKey ∨ d.kind = .invalidLengthKey) :
    v.record.directive = .org := by
  have hmem := hd
  rw [h.diagnostics] at hmem
  obtain ⟨e, he, rfl⟩ := mem_complaints hmem
  have hnot : ¬ v.record.directive.mayWait = true := by
    intro hmay
    rw [waits_iff.2 ⟨e, he, RecordError.isForwardReference_of_kind hkind, hmay⟩] at hwaits
    cases hwaits
  cases hdir : v.record.directive with
  | org => rfl
  | dsect => rw [h.diagnostics_of_dsect hdir] at hd; cases hd
  | ds => exact absurd (by rw [hdir]; rfl) hnot
  | dc => exact absurd (by rw [hdir]; rfl) hnot
  | equ => exact absurd (by rw [hdir]; rfl) hnot

end Visit

namespace Pass

variable {p : Pass} {v : Visit} {rs : List Record} {vs ws : List Visit}

/-- The first visits to the records of a context. -/
def visits (p : Pass) (records : List Record) : List Visit := p.visitsFrom 0 records

/-- The visits in which records end that are read once. -/
def atOnce (p : Pass) (records : List Record) : List Visit :=
  (p.visits records).filter fun v => !v.waits

/-- The first visits to the `EQU` records that wait. -/
def waitingEqus (p : Pass) (records : List Record) : List Visit :=
  (p.visits records).filter fun v => v.waits && v.record.directive == .equ

/-- The first visits to the storage records that wait. -/
def waitingStorage (p : Pass) (records : List Record) : List Visit :=
  (p.visits records).filter fun v => v.waits && v.record.directive != .equ

/-- The second visits to `EQU` records, after all first visits. -/
def laterEqus (p : Pass) (records : List Record) : List Visit :=
  (records.foldl forward p).revisits (p.waitingEqus records)

/-- The second visits to storage records, after all `EQU` records. -/
def laterStorage (p : Pass) (records : List Record) : List Visit :=
  (((p.waitingEqus records).map Visit.deferred).foldl retryRecord
    (records.foldl forward p)).revisits (p.waitingStorage records)

/-- The visits in which the records end. -/
def conclusions (p : Pass) (records : List Record) : List Visit :=
  p.atOnce records ++ (p.laterEqus records ++ p.laterStorage records)

theorem revisits_append (p : Pass) (vs ws : List Visit) :
    p.revisits (vs ++ ws) =
      p.revisits vs ++ ((vs.map Visit.deferred).foldl retryRecord p).revisits ws := by
  induction vs generalizing p with
  | nil => rfl
  | cons v vs ih =>
    rw [List.cons_append, revisits, ih, revisits, List.map_cons, List.foldl_cons, List.cons_append]

theorem later_eq (p : Pass) (records : List Record) :
    p.laterEqus records ++ p.laterStorage records =
      (records.foldl forward p).revisits (p.waitingEqus records ++ p.waitingStorage records) :=
  (revisits_append _ _ _).symm

theorem mem_waiting (h : v ∈ p.waitingEqus rs ++ p.waitingStorage rs) :
    v ∈ p.visits rs ∧ v.waits = true := by
  rcases List.mem_append.1 h with h | h
  · exact ⟨(List.mem_filter.1 h).1, (Bool.and_eq_true_iff.1 (List.mem_filter.1 h).2).1⟩
  · exact ⟨(List.mem_filter.1 h).1, (Bool.and_eq_true_iff.1 (List.mem_filter.1 h).2).1⟩

/-- Every record ends once. -/
theorem positions_conclusions (p : Pass) (rs : List Record) :
    ((p.conclusions rs).map Visit.position).Perm (List.range rs.length) := by
  have hlater : (p.laterEqus rs ++ p.laterStorage rs).map Visit.position =
      (p.waitingEqus rs ++ p.waitingStorage rs).map Visit.position := by
    rw [later_eq, positions_revisits]
  have hvisits : (p.visits rs).map Visit.position = List.range rs.length := by
    rw [visits, positions_visitsFrom, List.range_eq_range']
  rw [conclusions, List.map_append, hlater, ← List.map_append, ← hvisits]
  exact (filter_parts_perm (p.visits rs) Visit.waits fun v => v.record.directive == .equ).map _

theorem positions_filter (p : Pass) (rs : List Record) (keep : Visit → Bool) :
    (((p.visits rs).filter keep).map Visit.position).Pairwise (· < ·) := by
  have hsub := (List.filter_sublist (p := keep) (l := p.visits rs)).map Visit.position
  rw [visits, positions_visitsFrom] at hsub
  exact List.Pairwise.sublist hsub List.pairwise_lt_range'

theorem positions_batches (p : Pass) (rs : List Record) :
    ∀ batch ∈ [p.atOnce rs, p.laterEqus rs, p.laterStorage rs],
      (batch.map Visit.position).Pairwise (· < ·) := by
  intro batch hbatch
  simp only [List.mem_cons, List.not_mem_nil, or_false] at hbatch
  rcases hbatch with rfl | rfl | rfl
  · exact positions_filter p rs _
  · rw [laterEqus, positions_revisits]
    exact positions_filter p rs _
  · rw [laterStorage, positions_revisits]
    exact positions_filter p rs _

theorem mem_visits (h : v ∈ p.visits rs) : ∃ pre post, rs = pre ++ v.record :: post ∧
    v = (pre.foldl forward p).visit pre.length v.record := by
  obtain ⟨pre, post, hrs, hv⟩ := mem_visitsFrom h
  rw [Nat.zero_add] at hv
  exact ⟨pre, post, hrs, hv⟩

theorem record_of_mem_visits (h : v ∈ p.visits rs) : rs[v.position]? = some v.record := by
  obtain ⟨pre, post, hrs, hv⟩ := mem_visits h
  have hposition : v.position = pre.length := by rw [hv]; rfl
  rw [hposition, hrs]
  simp

theorem mem_later (h : v ∈ p.laterEqus rs ++ p.laterStorage rs) :
    ∃ u ∈ p.visits rs, u.waits = true ∧
      ∃ ds : List Deferred, v = (ds.foldl retryRecord (rs.foldl forward p)).revisit u := by
  rw [later_eq] at h
  obtain ⟨front, u, back, hsplit, hv⟩ := mem_revisits h
  obtain ⟨hu, hwaits⟩ := mem_waiting (v := u) (by rw [hsplit]; simp)
  exact ⟨u, hu, hwaits, front.map Visit.deferred, hv⟩

theorem directive_laterEqus (h : v ∈ p.laterEqus rs) : v.record.directive = .equ := by
  obtain ⟨front, u, back, hsplit, rfl⟩ := mem_revisits h
  have hu : u ∈ p.waitingEqus rs := by rw [hsplit]; simp
  have hequ := (Bool.and_eq_true_iff.1 (List.mem_filter.1 hu).2).2
  exact beq_iff_eq.1 hequ

theorem directive_laterStorage (h : v ∈ p.laterStorage rs) :
    v.record.directive = .ds ∨ v.record.directive = .dc := by
  obtain ⟨front, u, back, hsplit, rfl⟩ := mem_revisits h
  have hu : u ∈ p.waitingStorage rs := by rw [hsplit]; simp
  obtain ⟨hwaits, hequ⟩ := Bool.and_eq_true_iff.1 (List.mem_filter.1 hu).2
  have hmay := Visit.mayWait_of_waits hwaits
  show u.record.directive = .ds ∨ u.record.directive = .dc
  cases hdir : u.record.directive with
  | ds => exact .inl rfl
  | dc => exact .inr rfl
  | equ => rw [hdir] at hequ; cases hequ
  | org => rw [hdir] at hmay; cases hmay
  | dsect => rw [hdir] at hmay; cases hmay

theorem record_of_mem_conclusions (h : v ∈ p.conclusions rs) :
    rs[v.position]? = some v.record := by
  rcases List.mem_append.1 h with h | h
  · exact record_of_mem_visits (List.mem_filter.1 h).1
  · obtain ⟨u, hu, -, ds, rfl⟩ := mem_later h
    show rs[u.position]? = some u.record
    exact record_of_mem_visits hu

theorem context_of_mem_conclusions (h : v ∈ p.conclusions rs) :
    v.before.context = p.context := by
  rcases List.mem_append.1 h with h | h
  · obtain ⟨pre, post, -, hv⟩ := mem_visits (List.mem_filter.1 h).1
    rw [hv]
    exact context_foldl_forward p pre
  · obtain ⟨u, -, -, ds, rfl⟩ := mem_later h
    exact (context_foldl_retryRecord _ ds).trans (context_foldl_forward p rs)

theorem concludes_of_mem_conclusions (h : v ∈ p.conclusions rs) : v.Concludes := by
  rcases List.mem_append.1 h with h | h
  · obtain ⟨hmem, hwaits⟩ := List.mem_filter.1 h
    obtain ⟨pre, post, -, hv⟩ := mem_visits hmem
    rw [hv] at hwaits ⊢
    refine concludes_visit fun hd => ?_
    rw [waits_visit.2 hd] at hwaits
    cases hwaits
  · obtain ⟨u, -, hwaits, ds, rfl⟩ := mem_later h
    exact concludes_revisit (Visit.mayWait_of_waits hwaits)

theorem queue_foldl_forward (hlog : p.log = .empty) (rs : List Record) :
    (rs.foldl forward p).queue =
      (p.waitingEqus rs ++ p.waitingStorage rs).map Visit.deferred := by
  obtain ⟨hequs, hstorage⟩ := queues_foldl_forward p 0 rs
  have hequ : p.deferredEqu = [] := congrArg Log.equs hlog
  have hstore : p.deferredStorage = [] := congrArg Log.storage hlog
  rw [queue, hequs, hstorage, hequ, hstore, List.nil_append, List.nil_append, ← List.map_append]
  rfl

theorem run_eq (hlog : p.log = .empty) (rs : List Record) :
    p.run rs = ((p.waitingEqus rs ++ p.waitingStorage rs).map Visit.deferred).foldl retryRecord
      (rs.foldl forward p) := by
  rw [← queue_foldl_forward hlog]
  rfl

theorem diagnostics_of_waits (h : v ∈ p.visits rs) (hwaits : v.waits = true) :
    v.diagnostics = [] := by
  obtain ⟨pre, post, -, hv⟩ := mem_visits h
  rw [hv] at hwaits ⊢
  exact diagnostics_of_defers (waits_visit.1 hwaits)

/-- The diagnostics of a run are those of the records, in the order in which the records end. -/
theorem diagnostics_conclusions (hlog : p.log = .empty) (rs : List Record) :
    (p.run rs).diagnostics = (p.conclusions rs).flatMap Visit.diagnostics := by
  have hnone : p.diagnostics = [] := congrArg Log.diagnostics hlog
  have hfirst : (rs.foldl forward p).diagnostics = (p.atOnce rs).flatMap Visit.diagnostics := by
    rw [diagnostics_foldl_forward p 0, hnone, List.nil_append, atOnce, flatMap_filter_of_eq_nil]
    · rfl
    · intro v hv hwaits
      exact diagnostics_of_waits hv (by simpa using hwaits)
  rw [run_eq hlog, diagnostics_foldl_retryRecord, hfirst, conclusions, List.flatMap_append,
    later_eq]

theorem entries_of_waits (hwaits : v.waits = true) : v.entries = [] := by
  rw [Visit.entries, Visit.values?_of_waits hwaits]
  cases v.record.label <;> rfl

/-- Where all labels are new, the entries of a run are those of the records, in the order in which
the records end. -/
theorem entries_conclusions (hlog : p.log = .empty)
    (h : p.table.Admits p.context (p.pending rs)) :
    (p.run rs).table.entries = p.table.entries ++ (p.conclusions rs).flatMap Visit.entries := by
  have hqueue := (queue_admits h).2
  rw [queue_foldl_forward hlog, List.map_map] at hqueue
  have hfirst : (rs.foldl forward p).table.entries =
      p.table.entries ++ (p.atOnce rs).flatMap Visit.entries := by
    rw [entries_foldl_forward 0 h, atOnce, flatMap_filter_of_eq_nil]
    · rfl
    · intro v hv hwaits
      exact entries_of_waits (by simpa using hwaits)
  rw [run_eq hlog, entries_foldl_retryRecord (fun v hv => (mem_waiting hv).2) hqueue, hfirst,
    conclusions, List.flatMap_append, later_eq, List.append_assoc]

end Pass
end AsmLayout
