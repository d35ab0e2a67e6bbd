import AsmLayout.Proofs.Layout.Growth

/-!
# The entries of a pass solve their records

A record that is read without complaint defines its label by what its operand says at that moment.
As the table only grows afterwards, the operand still says so in the end. Main statement:
`Pass.run_solves` (for records read once and for those read twice).
-/

namespace AsmLayout

/-- The operand of the record, read against `L`, gives its label these values. -/
inductive Record.Solves (L : Lookups) (r : Record) : Int64 → UInt32 → Prop
  | equ {v : Int64} {type : Option TypeCode} (hdir : r.directive = .equ)
      (hv : Expr.evaluate L r.operand = .ok ⟨.int v, type⟩) : Solves L r v 1
  | storage {op : StorageOperand} {displacement : Int64}
      (hdir : r.directive = .ds ∨ r.directive = .dc)
      (hop : StorageOperand.decode L r.operand = .ok op)
      (hdisp : alignUp L.counter op.type.byteSize = some displacement) :
      Solves L r displacement op.length

theorem Record.Solves.extends {L L' : Lookups} {r : Record} {d : Int64} {n : UInt32}
    (h : r.Solves L d n) (hc : L'.counter = L.counter) (hs : L'.symbols.Extends L.symbols) :
    r.Solves L' d n := by
  cases h with
  | equ hdir hv => exact .equ hdir ((Expr.evaluate_extends (fun _ => hc) hs).ok hv)
  | storage hdir hop hdisp =>
    exact .storage hdir ((StorageOperand.decode_extends hc hs).ok hop) (by rw [hc]; exact hdisp)

namespace Pass

variable {p q : Pass} {r : Record} {pre post rest : List Record} {effect : Effect} {label : String}

theorem number_eq_ok {operand : String} {counter v : Int64} (h : p.number operand counter = .ok v) :
    ∃ type, Expr.evaluate (p.lookups counter) operand = .ok ⟨.int v, type⟩ := by
  unfold number at h
  cases he : Expr.evaluate (p.lookups counter) operand with
  | error e => rw [he] at h; cases h
  | ok o =>
    rw [he] at h
    obtain ⟨value, type⟩ := o
    cases value with
    | int n => cases h; exact ⟨type, rfl⟩
    | text s => cases h

theorem area_eq_ok {op : StorageOperand} {counter : Int64} {area : Area}
    (h : op.area counter = .ok area) :
    alignUp counter op.type.byteSize = some area.displacement := by
  unfold StorageOperand.area at h
  cases ha : alignUp counter op.type.byteSize with
  | none => simp only [ha] at h; cases h
  | some displacement =>
    simp only [ha] at h
    split at h <;> cases h
    rfl

theorem storage_eq_ok {operand : String} {counter : Int64}
    (h : p.storage operand counter = .ok effect) :
    ∃ op area, StorageOperand.decode (p.lookups counter) operand = .ok op ∧
      op.area counter = .ok area ∧ effect = .place area op.length := by
  unfold storage at h
  cases hop : StorageOperand.decode (p.lookups counter) operand with
  | error e => rw [hop] at h; cases h
  | ok op =>
    rw [hop] at h
    cases harea : op.area counter with
    | error e => simp only [Except.mapError, bind, Except.bind, harea] at h; cases h
    | ok area =>
      simp only [Except.mapError, bind, Except.bind, harea] at h
      cases h
      exact ⟨op, area, rfl, harea, rfl⟩

/-- A record that computes its label gives it values that solve the record. -/
theorem effect_solves {counter : Int64} (hr : r.directive.mayWait = true)
    (h : p.effect r counter = .ok effect) :
    ∃ d n, effect.definition? = some (d, n) ∧ r.Solves (p.lookups counter) d n := by
  have hstorage : r.directive = .ds ∨ r.directive = .dc → p.storage r.operand counter = .ok effect →
      ∃ d n, effect.definition? = some (d, n) ∧ r.Solves (p.lookups counter) d n := by
    intro hdir hst
    obtain ⟨op, area, hop, harea, rfl⟩ := storage_eq_ok hst
    exact ⟨area.displacement, op.length, rfl, .storage hdir hop (area_eq_ok harea)⟩
  unfold Pass.effect at h
  cases hdir : r.directive with
  | ds => rw [hdir] at h; exact hstorage (.inl hdir) h
  | dc => rw [hdir] at h; exact hstorage (.inr hdir) h
  | equ =>
    rw [hdir] at h
    cases hn : p.number r.operand counter with
    | error e => rw [hn] at h; cases h
    | ok v =>
      rw [hn] at h
      cases h
      obtain ⟨type, hv⟩ := number_eq_ok hn
      exact ⟨v, 1, rfl, .equ hdir hv⟩
  | org => rw [hdir] at hr; cases hr
  | dsect => rw [hdir] at hr; cases hr

/-- The table that reading a record leaves has an entry for its label, and in every table that grows
from it the entry solves the record. -/
theorem settle_solves {counter : Int64} (hr : r.directive.mayWait = true)
    (hl : r.label = some label) (h : p.effect r counter = .ok effect)
    (hgrow : (p.settle r effect).table.Extends p.table)
    (hq : q.table.Extends (p.settle r effect).table) (hcontext : q.context = p.context) :
    ∃ d n, r.Solves (q.lookups counter) d n ∧
      q.table.lookup? p.context label = some (q.table.made p.context label d n) := by
  obtain ⟨d, n, hdef, hsolves⟩ := effect_solves hr h
  have htable : (p.settle r effect).table = p.table.define p.context label d n := by
    simp only [settle, hdef, define, hl]
  refine ⟨d, n, hsolves.extends rfl ?_, ?_⟩
  · show (q.table.symbolsFrom q.context).Extends (p.table.symbolsFrom p.context)
    rw [hcontext]
    exact (hq.trans hgrow).symbolsFrom p.context
  · rw [SymbolTable.made_congr (hq.trans hgrow).foldCase]
    refine hq.lookup? ?_
    rw [htable, SymbolTable.lookup?_eq_get?, SymbolTable.keyOf_define, SymbolTable.get?_define,
      if_pos rfl]

/-- The records that are read again before `r`, should `r` be set aside. -/
def ahead (p : Pass) (pre : List Record) (r : Record) (post : List Record) : List Deferred :=
  if r.directive = .equ then (pre.foldl forward p).deferredEqu
  else ((pre ++ r :: post).foldl forward p).deferredEqu ++ (pre.foldl forward p).deferredStorage

/-- The pass that reads `r` for the second time, should it be set aside. -/
def beforeRetry (p : Pass) (pre : List Record) (r : Record) (post : List Record) : Pass :=
  (p.ahead pre r post).foldl retryRecord ((pre ++ r :: post).foldl forward p)

/-- Reading `r` between `pre` and `post` leaves a diagnostic, at once or when it is read again. -/
def Reported (p : Pass) (pre : List Record) (r : Record) (post : List Record) : Prop :=
  ((pre.foldl forward p).forward r).diagnostics ≠ (pre.foldl forward p).diagnostics ∨
    (pre.foldl forward p).Defers r ∧
      ((p.beforeRetry pre r post).retryRecord ⟨r, (pre.foldl forward p).counter⟩).diagnostics ≠
        (p.beforeRetry pre r post).diagnostics

theorem foldl_forward_queues (p : Pass) (rs : List Record) :
    (∃ ds, (rs.foldl forward p).deferredEqu = p.deferredEqu ++ ds) ∧
      ∃ ds, (rs.foldl forward p).deferredStorage = p.deferredStorage ++ ds := by
  induction rs generalizing p with
  | nil => exact ⟨⟨[], by simp⟩, ⟨[], by simp⟩⟩
  | cons r rs ih =>
    have hstep : (∃ ds, (p.forward r).deferredEqu = p.deferredEqu ++ ds) ∧
        ∃ ds, (p.forward r).deferredStorage = p.deferredStorage ++ ds := by
      by_cases hd : p.Defers r
      · rw [hd.forward]
        exact ⟨⟨_, (queues_defer p r).1⟩, ⟨_, (queues_defer p r).2⟩⟩
      · obtain ⟨hequ, hstorage⟩ := queues_forward_of_not hd
        exact ⟨⟨[], by rw [hequ, List.append_nil]⟩, ⟨[], by rw [hstorage, List.append_nil]⟩⟩
    obtain ⟨⟨ds, hds⟩, ⟨ds', hds'⟩⟩ := hstep
    obtain ⟨⟨es, hes⟩, ⟨es', hes'⟩⟩ := ih (p.forward r)
    rw [List.foldl_cons, hes, hes', hds, hds']
    exact ⟨⟨ds ++ es, by simp⟩, ⟨ds' ++ es', by simp⟩⟩

theorem queue_split (post : List Record) (hd : (pre.foldl forward p).Defers r) :
    ∃ back, ((pre ++ r :: post).foldl forward p).queue =
      p.ahead pre r post ++ ⟨r, (pre.foldl forward p).counter⟩ :: back := by
  obtain ⟨⟨ds, hds⟩, ⟨ds', hds'⟩⟩ := foldl_forward_queues ((pre.foldl forward p).forward r) post
  obtain ⟨hequ, hstorage⟩ := queues_defer (pre.foldl forward p) r
  rw [hd.forward] at hds hds'
  rw [hequ] at hds
  rw [hstorage] at hds'
  unfold ahead queue
  simp only [List.foldl_append, List.foldl_cons, hd.forward]
  by_cases hdir : r.directive = .equ
  · rw [if_pos hdir] at hds hds' ⊢
    exact ⟨ds ++ (post.foldl forward ((pre.foldl forward p).defer r)).deferredStorage,
      by rw [hds]; simp⟩
  · rw [if_neg hdir] at hds hds' ⊢
    exact ⟨ds', by rw [hds']; simp⟩

theorem run_eq_of_defers (post : List Record) (hd : (pre.foldl forward p).Defers r) :
    ∃ back, ((pre ++ r :: post).foldl forward p).queue =
        p.ahead pre r post ++ ⟨r, (pre.foldl forward p).counter⟩ :: back ∧
      p.run (pre ++ r :: post) = back.foldl retryRecord
        ((p.beforeRetry pre r post).retryRecord ⟨r, (pre.foldl forward p).counter⟩) := by
  obtain ⟨back, hqueue⟩ := queue_split post hd
  refine ⟨back, hqueue, ?_⟩
  show ((pre ++ r :: post).foldl forward p).queue.foldl retryRecord _ = _
  rw [hqueue, List.foldl_append, List.foldl_cons]
  rfl

theorem forward_diagnostics (p : Pass) (r : Record) :
    (p.forward r).diagnostics = p.diagnostics ∨
      ∃ d, d.line = r.render ∧ (p.forward r).diagnostics = p.diagnostics ++ [d] := by
  rcases forward_cases p r with ⟨effect, -, heq⟩ | ⟨-, heq⟩ | ⟨e, -, -, heq⟩
  · rw [heq, advance_eq, settle_eq, markOrigin_eq]; exact .inl rfl
  · rw [heq, defer]; split <;> exact .inl rfl
  · rw [heq, markOrigin_eq]; exact .inr ⟨_, rfl, rfl⟩

theorem retryRecord_diagnostics (p : Pass) (d : Deferred) :
    (p.retryRecord d).diagnostics = p.diagnostics ∨
      ∃ x, x.line = d.record.render ∧ (p.retryRecord d).diagnostics = p.diagnostics ++ [x] := by
  rcases retryRecord_cases p d with ⟨effect, -, heq⟩ | ⟨e, -, heq⟩
  · rw [heq, settle_eq]; exact .inl rfl
  · rw [heq]; exact .inr ⟨_, rfl, rfl⟩

theorem foldl_forward_diagnostics (p : Pass) (rs : List Record) :
    p.diagnostics ⊆ (rs.foldl forward p).diagnostics := by
  induction rs generalizing p with
  | nil => exact fun _ h => h
  | cons r rs ih =>
    refine List.Subset.trans ?_ (ih (p.forward r))
    rcases forward_diagnostics p r with h | ⟨d, -, h⟩
    · rw [h]; exact List.Subset.refl _
    · rw [h]; exact List.subset_append_left _ _

theorem foldl_retryRecord_diagnostics (p : Pass) (ds : List Deferred) :
    p.diagnostics ⊆ (ds.foldl retryRecord p).diagnostics := by
  induction ds generalizing p with
  | nil => exact fun _ h => h
  | cons d ds ih =>
    refine List.Subset.trans ?_ (ih (p.retryRecord d))
    rcases retryRecord_diagnostics p d with h | ⟨x, -, h⟩
    · rw [h]; exact List.Subset.refl _
    · rw [h]; exact List.subset_append_left _ _

/-- What is reported of a record stands among the diagnostics of the run. -/
theorem Reported.exists_diagnostic (h : p.Reported pre r post) :
    ∃ d ∈ (p.run (pre ++ r :: post)).diagnostics, d.line = r.render := by
  rcases h with h | ⟨hd, h⟩
  · obtain ⟨d, hline, heq⟩ := (forward_diagnostics (pre.foldl forward p) r).resolve_left h
    refine ⟨d, ?_, hline⟩
    rw [run, List.foldl_append, List.foldl_cons]
    apply foldl_retryRecord_diagnostics
    apply foldl_forward_diagnostics
    rw [heq]
    exact List.mem_append_right _ (List.mem_singleton_self d)
  · obtain ⟨back, -, hrun⟩ := run_eq_of_defers post hd
    obtain ⟨d, hline, heq⟩ := (retryRecord_diagnostics (p.beforeRetry pre r post) _).resolve_left h
    refine ⟨d, ?_, hline⟩
    rw [hrun]
    apply foldl_retryRecord_diagnostics
    rw [heq]
    exact List.mem_append_right _ (List.mem_singleton_self d)

theorem forward_ok_of_diagnostics (hd : ¬ p.Defers r)
    (h : (p.forward r).diagnostics = p.diagnostics) : ∃ effect, p.reading r = .ok effect := by
  rcases forward_cases p r with ⟨effect, hok, -⟩ | ⟨hdef, -⟩ | ⟨e, -, -, heq⟩
  · exact ⟨effect, hok⟩
  · exact absurd hdef hd
  · rw [heq, markOrigin_eq] at h
    exact absurd h (by simp [report])

theorem retryRecord_ok_of_diagnostics {d : Deferred}
    (h : (p.retryRecord d).diagnostics = p.diagnostics) :
    ∃ effect, p.effect d.record d.counter = .ok effect ∧
      p.retryRecord d = p.settle d.record effect := by
  rcases retryRecord_cases p d with hok | ⟨e, -, heq⟩
  · exact hok
  · rw [heq] at h
    exact absurd h (by simp [report])

theorem run_solves_of_not_defers (h : p.table.Admits p.context (p.pending (r :: rest)))
    (hl : r.label = some label) (hr : r.directive.mayWait = true) (hd : ¬ p.Defers r)
    (hok : (p.forward r).diagnostics = p.diagnostics) :
    ∃ d n, r.Solves ((p.run (r :: rest)).lookups p.counter) d n ∧
      (p.run (r :: rest)).table.lookup? p.context label =
        some ((p.run (r :: rest)).table.made p.context label d n) := by
  obtain ⟨effect, heff⟩ := forward_ok_of_diagnostics hd hok
  have hmark : p.markOrigin r = p :=
    markOrigin_of_ne fun horg => by rw [horg] at hr; cases hr
  have htable : (p.forward r).table = (p.settle r effect).table := by
    rw [forward_of_ok heff, hmark, advance_eq]
  have hadmits := forward_admits h
  rw [← context_forward p r] at hadmits
  have hgrow : (p.run (r :: rest)).table.Extends (p.forward r).table := run_extends hadmits.2
  rw [htable] at hadmits hgrow
  rw [reading, hmark] at heff
  exact settle_solves hr hl heff hadmits.1 hgrow (context_run p _)

theorem foldl_retryRecord_solves {counter : Int64} {back : List Deferred}
    (h : p.table.Admits p.context (r :: back.map Deferred.record))
    (hl : r.label = some label) (hr : r.directive.mayWait = true)
    (hok : (p.retryRecord ⟨r, counter⟩).diagnostics = p.diagnostics)
    (hq : q = back.foldl retryRecord (p.retryRecord ⟨r, counter⟩)) :
    ∃ d n, r.Solves (q.lookups counter) d n ∧
      q.table.lookup? p.context label = some (q.table.made p.context label d n) := by
  obtain ⟨effect, heff, heq⟩ := retryRecord_ok_of_diagnostics hok
  obtain ⟨hgrow, hadmits⟩ := h.writes (retryRecord_writes p ⟨r, counter⟩)
  rw [← context_retryRecord p ⟨r, counter⟩] at hadmits
  have hback := foldl_retryRecord_extends hadmits
  rw [← hq, heq] at hback
  rw [heq] at hgrow
  refine settle_solves hr hl heff hgrow hback ?_
  rw [hq, context_foldl_retryRecord, context_retryRecord]

/-- In a context with different new labels, every label whose record is read without complaint gets
values that solve the record against the finished table. -/
theorem run_solves (h : p.table.Admits p.context (p.pending (pre ++ r :: post)))
    (hl : r.label = some label) (hr : r.directive.mayWait = true)
    (hok : ¬ p.Reported pre r post) :
    ∃ d n,
      r.Solves ((p.run (pre ++ r :: post)).lookups (pre.foldl forward p).counter) d n ∧
      (p.run (pre ++ r :: post)).table.lookup? p.context label =
        some ((p.run (pre ++ r :: post)).table.made p.context label d n) := by
  obtain ⟨hfirst, hsecond⟩ := not_or.1 hok
  by_cases hd : (pre.foldl forward p).Defers r
  · -- the values are those of the second reading
    obtain ⟨back, hqueue, hrun⟩ := run_eq_of_defers post hd
    have hretry := not_not.1 fun hne => hsecond ⟨hd, hne⟩
    obtain ⟨-, hadmits⟩ := queue_admits h
    rw [hqueue, List.map_append, List.map_cons] at hadmits
    obtain ⟨-, hback⟩ := foldl_retryRecord_admits hadmits
    have hcontext : (p.beforeRetry pre r post).context = p.context := by
      rw [beforeRetry, context_foldl_retryRecord, context_foldl_forward]
    rw [context_foldl_forward, ← hcontext] at hback
    rw [← hcontext]
    exact foldl_retryRecord_solves hback hl hr hretry hrun
  · -- the values are those of the first reading
    obtain ⟨-, hadmits⟩ := foldl_forward_admits h
    rw [← context_foldl_forward p pre] at hadmits ⊢
    rw [run_append]
    exact run_solves_of_not_defers hadmits hl hr hd (not_not.1 hfirst)

end Pass
end AsmLayout
