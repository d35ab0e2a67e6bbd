import AsmLayout.Proofs.Layout.Growth

/-!
# What a record reads of a pass and what it adds

A record is read through the counters of the pass and the labels that it names; what the pass has
written down before (`Pass.Log`: the records set aside and the diagnostics) is added to and never
looked at. `Pass.view` is a pass seen through some of its labels, with another log. Main statements:
`Pass.forward_view` and `Pass.retryRecord_view` (a record that needs no other labels is read as in
the whole pass) and `Pass.run_restrict` (so is a whole context).
-/

namespace AsmLayout

/-- The names that the operand of a record refers to. -/
def Record.references (r : Record) : List String :=
  match r.directive with
  | .ds | .dc => StorageOperand.references r.operand
  | .equ | .org => Expr.references r.operand
  | .dsect => []

/-- The label of the record and the names in its operand stand for kept keys. -/
structure Record.Within (r : Record) (t : SymbolTable) (context : String)
    (keep : String × String → Bool) : Prop where
  label : ∀ l ∈ r.label, keep (t.keyOf context l) = true
  references : ∀ name ∈ r.references, keep (t.target context name) = true

theorem Record.within_true (r : Record) (t : SymbolTable) (context : String) :
    r.Within t context fun _ => true :=
  ⟨fun _ _ => rfl, fun _ _ => rfl⟩

theorem Record.Within.congr {r : Record} {t t' : SymbolTable} {context : String}
    {keep : String × String → Bool} (h : r.Within t context keep) (ht : t'.foldCase = t.foldCase) :
    r.Within t' context keep := by
  refine ⟨?_, ?_⟩
  · rw [SymbolTable.keyOf_congr ht]; exact h.label
  · rw [SymbolTable.target_congr ht]; exact h.references

theorem SymbolTable.symbolsFrom_restrict {t : SymbolTable} {context name : String}
    {keep : String × String → Bool} (h : keep (t.target context name) = true) :
    ((t.restrict keep).symbolsFrom context).displacement name =
        (t.symbolsFrom context).displacement name ∧
      ((t.restrict keep).symbolsFrom context).length name =
        (t.symbolsFrom context).length name := by
  have hresolve : (t.restrict keep).resolve? ((t.restrict keep).normalize context) name =
      t.resolve? (t.normalize context) name := by
    rw [resolve?_eq_get?, resolve?_eq_get?, target_normalize, target_normalize, target_restrict,
      get?_restrict h]
  simp only [symbolsFrom, hresolve, and_self]

namespace Pass

/-- What a pass writes down: the records set aside and the diagnostics. -/
structure Log where
  equs : List Deferred
  storage : List Deferred
  diagnostics : List Diagnostic
  deriving DecidableEq, Repr

namespace Log

def empty : Log := ⟨[], [], []⟩

instance : Append Log :=
  ⟨fun a b => ⟨a.equs ++ b.equs, a.storage ++ b.storage, a.diagnostics ++ b.diagnostics⟩⟩

theorem append_def (a b : Log) :
    a ++ b = ⟨a.equs ++ b.equs, a.storage ++ b.storage, a.diagnostics ++ b.diagnostics⟩ := rfl

theorem append_empty (a : Log) : a ++ empty = a := by simp [append_def, empty]

theorem append_assoc (a b c : Log) : a ++ b ++ c = a ++ (b ++ c) := by simp [append_def]

/-- The log with further diagnostics. -/
def add (a : Log) (diagnostics : List Diagnostic) : Log :=
  { a with diagnostics := a.diagnostics ++ diagnostics }

theorem add_nil (a : Log) : a.add [] = a := by simp [add]

theorem add_add (a : Log) (l l' : List Diagnostic) : (a.add l).add l' = a.add (l ++ l') := by
  simp [add]

/-- The logs one after another. -/
def concat (logs : List Log) : Log := logs.foldr (· ++ ·) empty

theorem concat_cons (a : Log) (logs : List Log) : concat (a :: logs) = a ++ concat logs := rfl

end Log

/-- What the pass has written down so far. -/
def log (p : Pass) : Log := ⟨p.deferredEqu, p.deferredStorage, p.diagnostics⟩

/-- The diagnostic of a failing record. -/
def complaint (p : Pass) (r : Record) (e : RecordError) : Diagnostic :=
  ⟨e.kind, p.context, r.render, e.message⟩

/-- What a record that is read for the first time adds to the log. -/
def notes (p : Pass) (r : Record) : Log :=
  match p.reading r with
  | .ok _ => .empty
  | .error e =>
    if e.isForwardReference && r.directive.mayWait then
      if r.directive = .equ then ⟨[⟨r, p.counter⟩], [], []⟩ else ⟨[], [⟨r, p.counter⟩], []⟩
    else ⟨[], [], [p.complaint r e]⟩

/-- The diagnostic that a record leaves when it is read again. -/
def retryNotes (p : Pass) (d : Deferred) : List Diagnostic :=
  match p.effect d.record d.counter with
  | .ok _ => []
  | .error e => [p.complaint d.record e]

/-- The logs of records read in turn for the first time, one for each. -/
def readings (p : Pass) : List Record → List Log
  | [] => []
  | r :: rs => p.notes r :: (p.forward r).readings rs

/-- The diagnostics of records read again in turn, a list for each. -/
def rereadings (p : Pass) : List Deferred → List (List Diagnostic)
  | [] => []
  | d :: ds => p.retryNotes d :: (p.retryRecord d).rereadings ds

variable {p : Pass} {r : Record} {d : Deferred} {keep : String × String → Bool} {log : Log}

/-- The pass seen through the kept labels, with another log. -/
def view (p : Pass) (keep : String × String → Bool) (log : Log) : Pass :=
  { p with
    table := p.table.restrict keep
    deferredEqu := log.equs
    deferredStorage := log.storage
    diagnostics := log.diagnostics }

theorem view_true : p.view (fun _ => true) p.log = p := by
  rw [view, SymbolTable.restrict_true]
  rfl

theorem number_view {operand : String} {counter : Int64}
    (h : ∀ name ∈ Expr.references operand, keep (p.table.target p.context name) = true) :
    (p.view keep log).number operand counter = p.number operand counter := by
  have heval : Expr.evaluate ((p.view keep log).lookups counter) operand =
      Expr.evaluate (p.lookups counter) operand :=
    Expr.evaluate_congr (fun _ => rfl)
      (fun name hn => (SymbolTable.symbolsFrom_restrict (h name hn)).1)
      fun name hn => (SymbolTable.symbolsFrom_restrict (h name hn)).2
  unfold number
  rw [heval]

theorem storage_view {operand : String} {counter : Int64}
    (h : ∀ name ∈ StorageOperand.references operand,
      keep (p.table.target p.context name) = true) :
    (p.view keep log).storage operand counter = p.storage operand counter := by
  have hdecode : StorageOperand.decode ((p.view keep log).lookups counter) operand =
      StorageOperand.decode (p.lookups counter) operand :=
    StorageOperand.decode_congr rfl
      (fun name hn => (SymbolTable.symbolsFrom_restrict (h name hn)).1)
      fun name hn => (SymbolTable.symbolsFrom_restrict (h name hn)).2
  unfold storage
  rw [hdecode]

theorem effect_view (h : r.Within p.table p.context keep) (counter : Int64) :
    (p.view keep log).effect r counter = p.effect r counter := by
  have href := h.references
  unfold Record.references at href
  unfold effect
  -- each directive evaluates its own operand, and the names there are what `h` keeps
  cases hdir : r.directive with
  | ds => rw [hdir] at href; exact storage_view href
  | dc => rw [hdir] at href; exact storage_view href
  | equ => rw [hdir] at href; simp only [number_view href]
  | org =>
    rw [hdir] at href
    have horigin : (p.view keep log).origin r.operand counter = p.origin r.operand counter := by
      unfold origin
      rw [number_view href]
      rfl
    simp only [horigin]
  | dsect => rfl

theorem define_view {label : Option String}
    (h : ∀ l ∈ label, keep (p.table.keyOf p.context l) = true) (displacement : Int64)
    (length : UInt32) :
    (p.view keep log).define label displacement length =
      (p.define label displacement length).view keep log := by
  cases label with
  | none => rfl
  | some l =>
    simp only [define, view]
    rw [SymbolTable.restrict_define (h l rfl)]

theorem settle_view (h : r.Within p.table p.context keep) (effect : Effect) :
    (p.view keep log).settle r effect = (p.settle r effect).view keep log := by
  unfold settle
  cases effect.definition? with
  | none => rfl
  | some values => exact define_view h.label _ _

theorem markOrigin_view (h : r.Within p.table p.context keep) :
    (p.view keep log).markOrigin r = (p.markOrigin r).view keep log := by
  unfold markOrigin
  split
  · exact define_view h.label _ _
  · rfl

theorem advance_view (effect : Effect) :
    (p.view keep log).advance effect = (p.advance effect).view keep log := by
  unfold advance
  cases effect.counter? <;> rfl

theorem within_markOrigin (h : r.Within p.table p.context keep) :
    r.Within (p.markOrigin r).table (p.markOrigin r).context keep := by
  have hcontext : (p.markOrigin r).context = p.context := by rw [markOrigin_eq]
  rw [hcontext]
  exact h.congr (markOrigin_writes p r).sameOutside.foldCase

theorem reading_view (h : r.Within p.table p.context keep) :
    (p.view keep log).reading r = p.reading r := by
  unfold reading
  rw [markOrigin_view h, effect_view (within_markOrigin h)]
  rfl

theorem view_report (r : Record) (e : RecordError) :
    (p.view keep log).report r e = (p.report r e).view keep (log.add [p.complaint r e]) := rfl

theorem view_defer (r : Record) :
    (p.view keep log).defer r = (p.defer r).view keep (log ++
      if r.directive = .equ then ⟨[⟨r, p.counter⟩], [], []⟩ else ⟨[], [⟨r, p.counter⟩], []⟩) := by
  unfold defer
  by_cases hequ : r.directive = .equ <;> simp [hequ, view, Log.append_def]

/-- A record that needs kept labels only is read as in the whole pass. -/
theorem forward_view (h : r.Within p.table p.context keep) (log : Log) :
    (p.view keep log).forward r = (p.forward r).view keep (log ++ p.notes r) := by
  rw [forward_eq, forward_eq, reading_view h, markOrigin_view h, notes]
  cases p.reading r with
  | ok effect =>
    dsimp only
    rw [settle_view (within_markOrigin h), advance_view, Log.append_empty]
  | error e =>
    have hcounter : (p.markOrigin r).counter = p.counter := counter_markOrigin
    have hcomplaint : (p.markOrigin r).complaint r e = p.complaint r e := by
      rw [markOrigin_eq]
      rfl
    dsimp only
    split
    · rw [view_defer, hcounter]
    · rw [view_report, hcomplaint]
      simp [Log.add, Log.append_def]

theorem retryRecord_view (h : d.record.Within p.table p.context keep) (log : Log) :
    (p.view keep log).retryRecord d = (p.retryRecord d).view keep (log.add (p.retryNotes d)) := by
  unfold retryRecord retryNotes
  rw [effect_view h]
  cases p.effect d.record d.counter with
  | ok effect =>
    rw [Log.add_nil]
    exact settle_view h effect
  | error e => exact view_report d.record e

theorem foldl_forward_view (rs : List Record) (log : Log)
    (h : ∀ r ∈ rs, r.Within p.table p.context keep) :
    rs.foldl forward (p.view keep log) =
      (rs.foldl forward p).view keep (log ++ .concat (p.readings rs)) := by
  induction rs generalizing p log with
  | nil => exact congrArg (p.view keep) (Log.append_empty log).symm
  | cons r rs ih =>
    rw [List.foldl_cons, forward_view (h r (by simp)), ih, List.foldl_cons, readings,
      Log.concat_cons, Log.append_assoc]
    intro x hx
    rw [context_forward]
    exact (h x (by simp [hx])).congr (forward_writes p r).sameOutside.foldCase

theorem foldl_retryRecord_view (ds : List Deferred) (log : Log)
    (h : ∀ d ∈ ds, d.record.Within p.table p.context keep) :
    ds.foldl retryRecord (p.view keep log) =
      (ds.foldl retryRecord p).view keep (log.add (p.rereadings ds).flatten) := by
  induction ds generalizing p log with
  | nil => exact congrArg (p.view keep) (Log.add_nil log).symm
  | cons d ds ih =>
    rw [List.foldl_cons, retryRecord_view (h d (by simp)), ih, List.foldl_cons, rereadings,
      List.flatten_cons, Log.add_add]
    intro x hx
    rw [context_retryRecord]
    exact (h x (by simp [hx])).congr (retryRecord_writes p d).sameOutside.foldCase

theorem log_view : (p.view keep log).log = log := rfl

theorem log_forward (p : Pass) (r : Record) : (p.forward r).log = p.log ++ p.notes r := by
  have h := forward_view (r.within_true p.table p.context) p.log
  rw [view_true] at h
  rw [h, log_view]

theorem log_retryRecord (p : Pass) (d : Deferred) :
    (p.retryRecord d).log = p.log.add (p.retryNotes d) := by
  have h := retryRecord_view (d.record.within_true p.table p.context) p.log
  rw [view_true] at h
  rw [h, log_view]

theorem log_foldl_forward (p : Pass) (rs : List Record) :
    (rs.foldl forward p).log = p.log ++ .concat (p.readings rs) := by
  have h := foldl_forward_view rs p.log fun r _ => r.within_true p.table p.context
  rw [view_true] at h
  rw [h, log_view]

theorem log_foldl_retryRecord (p : Pass) (ds : List Deferred) :
    (ds.foldl retryRecord p).log = p.log.add (p.rereadings ds).flatten := by
  have h := foldl_retryRecord_view ds p.log fun d _ => d.record.within_true p.table p.context
  rw [view_true] at h
  rw [h, log_view]

/-- The pass with the kept labels only. -/
def restrict (p : Pass) (keep : String × String → Bool) : Pass :=
  { p with table := p.table.restrict keep }

theorem restrict_eq_view (p : Pass) (keep : String × String → Bool) :
    p.restrict keep = p.view keep p.log := rfl

theorem within_of_mem_queue {rs : List Record}
    (h : ∀ r ∈ p.pending rs, r.Within p.table p.context keep)
    (hd : d ∈ (rs.foldl forward p).queue) :
    d.record.Within (rs.foldl forward p).table (rs.foldl forward p).context keep := by
  rw [context_foldl_forward]
  -- what is set aside comes from the records or was there before
  have hmem : d.record ∈ p.pending (rs ++ []) := pending_foldl_forward (List.mem_map_of_mem hd)
  rw [List.append_nil] at hmem
  exact (h _ hmem).congr (foldl_forward_sameOutside p rs).foldCase

/-- A context whose records need kept labels only is resolved as in the whole pass. -/
theorem run_restrict {rs : List Record} (h : ∀ r ∈ p.pending rs, r.Within p.table p.context keep) :
    (p.restrict keep).run rs = (p.run rs).restrict keep := by
  have hforward : rs.foldl forward (p.restrict keep) = (rs.foldl forward p).restrict keep := by
    rw [restrict_eq_view, foldl_forward_view rs _ fun r hr => h r (List.mem_append_left _ hr),
      restrict_eq_view, log_foldl_forward]
  have hrun : ∀ q : Pass, (∀ d ∈ q.queue, d.record.Within q.table q.context keep) →
      (q.restrict keep).retry = q.retry.restrict keep := by
    intro q hq
    show q.queue.foldl retryRecord (q.restrict keep) = (q.queue.foldl retryRecord q).restrict keep
    rw [restrict_eq_view, foldl_retryRecord_view _ _ hq, restrict_eq_view, log_foldl_retryRecord]
  rw [run, hforward, hrun _ fun d hd => within_of_mem_queue h hd, run]

end Pass
end AsmLayout
