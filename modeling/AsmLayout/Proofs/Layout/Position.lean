import AsmLayout.Proofs.Layout.Hide

/-!
# The position of an `EQU` does not matter

An `EQU` whose operand has a number once all records have been read may stand anywhere: it is read
at once or set aside, and either way its label gets that number and all other records come to what
they come to without it. Main statement: `Pass.run_insert`.
-/

namespace AsmLayout.Pass

variable {p : Pass} {e : Record} {post : List Record} {label : String} {v counter : Int64}
  {type : Option TypeCode}

theorem number_of_ok {operand : String}
    (h : Expr.evaluate (p.lookups counter) operand = .ok ⟨.int v, type⟩) :
    p.number operand counter = .ok v := by
  unfold number
  rw [h]
  rfl

theorem number_of_error {operand : String} {x : EvalError}
    (h : Expr.evaluate (p.lookups counter) operand = .error x) :
    p.number operand counter = .error (.evaluation x) := by
  unfold number
  rw [h]
  rfl

theorem effect_equ (hequ : e.directive = .equ) :
    p.effect e counter = p.number e.operand counter >>= fun v => .ok (.assign v 1) := by
  unfold effect
  rw [hequ]

theorem reading_equ (hequ : e.directive = .equ) :
    p.reading e = p.number e.operand p.counter >>= fun v => .ok (.assign v 1) := by
  have hmark : p.markOrigin e = p := markOrigin_of_ne (by rw [hequ]; decide)
  rw [reading, hmark, effect_equ hequ]

/-- The pass with the label of an `EQU` defined. -/
def assign (p : Pass) (label : String) (v : Int64) : Pass :=
  { p with table := p.table.define p.context label v 1 }

theorem settle_assign (hlabel : e.label = some label) :
    p.settle e (.assign v 1) = p.assign label v := by
  have hdefine : p.settle e (.assign v 1) = p.define e.label v 1 := rfl
  rw [hdefine, hlabel]
  rfl

theorem hide_assign (equs : List Deferred) :
    (p.assign label v).hide (p.table.keyOf p.context label) equs =
      p.hide (p.table.keyOf p.context label) equs := by
  unfold hide assign
  dsimp only
  rw [SymbolTable.erase_define_self]

theorem lookup?_assign :
    (p.assign label v).table.lookup? p.context label = some (p.table.made p.context label v 1) := by
  show (p.table.define p.context label v 1).lookup? p.context label = _
  rw [SymbolTable.lookup?_eq_get?, SymbolTable.keyOf_define, SymbolTable.get?_define, if_pos rfl]

theorem hide_of_get? {key : String × String} (h : p.table.get? key = none) :
    p.hide key p.deferredEqu = p := by
  unfold hide
  rw [SymbolTable.erase_of_get? h]

theorem retryRecord_equ {q : Pass} {c : Int64} (hequ : e.directive = .equ)
    (hlabel : e.label = some label) (hcounter : ¬ Expr.UsesCounter e.operand)
    (hv : Expr.evaluate (p.lookups counter) e.operand = .ok ⟨.int v, type⟩)
    (hgrow : q.table.Extends p.table) (hcontext : q.context = p.context) :
    q.retryRecord ⟨e, c⟩ = q.assign label v := by
  have hsymbols : (q.lookups c).symbols.Extends (p.lookups counter).symbols := by
    show (q.table.symbolsFrom q.context).Extends (p.table.symbolsFrom p.context)
    rw [hcontext]
    exact hgrow.symbolsFrom p.context
  have heval := (Expr.evaluate_extends (fun hc => absurd hc hcounter) hsymbols).ok hv
  have heffect : q.effect e c = .ok (.assign v 1) := by
    rw [effect_equ hequ, number_of_ok heval]
    rfl
  rw [retryRecord, heffect]
  exact settle_assign hlabel

/-- A number that is known in the end is known at once, or else the `EQU` is set aside. -/
theorem number_or_defers {q : Pass} (hequ : e.directive = .equ)
    (hcounter : ¬ Expr.UsesCounter e.operand)
    (hv : Expr.evaluate (q.lookups counter) e.operand = .ok ⟨.int v, type⟩)
    (hgrow : q.table.Extends p.table) (hcontext : q.context = p.context) :
    p.number e.operand p.counter = .ok v ∨ p.Defers e := by
  have hsymbols : (q.lookups counter).symbols.Extends (p.lookups p.counter).symbols := by
    show (q.table.symbolsFrom q.context).Extends (p.table.symbolsFrom p.context)
    rw [hcontext]
    exact hgrow.symbolsFrom p.context
  rcases Expr.evaluate_extends (fun hc => absurd hc hcounter) hsymbols with heq | ⟨x, hx, hundefined⟩
  · rw [hv] at heq
    exact .inl (number_of_ok heq.symm)
  · refine .inr ⟨.evaluation x, ?_, hundefined, by rw [hequ]; rfl⟩
    rw [reading_equ hequ, number_of_error hx]
    rfl

section

variable {key : String × String}

theorem avoids_of_mem_queue {rs : List Record} {d : Deferred}
    (h : ∀ r ∈ p.pending rs, r.Avoids p.table p.context key)
    (hd : d ∈ (rs.foldl forward p).queue) :
    d.record.Avoids (rs.foldl forward p).table (rs.foldl forward p).context key :=
  Record.within_ne_iff.1 (within_of_mem_queue (fun r hr => Record.within_ne_iff.2 (h r hr)) hd)

theorem foldl_forward_of_hide (havoids : ∀ r ∈ post, r.Avoids p.table p.context key)
    (hhide : (p.forward e).hide key p.deferredEqu = p) :
    ∃ ds, (post.foldl forward (p.forward e)).deferredEqu = (p.forward e).deferredEqu ++ ds ∧
      post.foldl forward p =
        (post.foldl forward (p.forward e)).hide key (p.deferredEqu ++ ds) := by
  have hall : ∀ r ∈ post, r.Avoids (p.forward e).table (p.forward e).context key := by
    intro r hr
    rw [context_forward]
    exact (havoids r hr).congr (forward_writes p e).sameOutside.foldCase
  obtain ⟨ds, hds, hcommute⟩ := foldl_forward_hide post hall
  refine ⟨ds, hds, ?_⟩
  rw [← hcommute, hhide]

end

/-- An `EQU` whose number is known when it is first read. -/
theorem run_insert_of_ok (hequ : e.directive = .equ) (hlabel : e.label = some label)
    (hadmits : p.table.Admits p.context (p.pending (e :: post)))
    (havoids : ∀ r ∈ p.pending post, r.Avoids p.table p.context (p.table.keyOf p.context label))
    (hv : p.number e.operand p.counter = .ok v) :
    (∃ equs, p.run post = (p.run (e :: post)).hide (p.table.keyOf p.context label) equs) ∧
      (p.run (e :: post)).table.lookup? p.context label =
        some (p.table.made p.context label v 1) := by
  have hforward : p.forward e = p.assign label v := by
    have hreading : p.reading e = .ok (.assign v 1) := by rw [reading_equ hequ, hv]; rfl
    have hmark : p.markOrigin e = p := markOrigin_of_ne (by rw [hequ]; decide)
    rw [forward_of_ok hreading, hmark, settle_assign hlabel]
    rfl
  have habsent := hadmits.fresh e (by simp [pending]) label hlabel
  have hhide : (p.forward e).hide (p.table.keyOf p.context label) p.deferredEqu = p := by
    rw [hforward, hide_assign, hide_of_get? habsent]
  obtain ⟨ds, hds, hwithout⟩ := foldl_forward_of_hide
    (fun r hr => havoids r (List.mem_append_left _ hr)) hhide
  constructor
  · refine ⟨p.deferredEqu ++ ds, ?_⟩
    have hqueue : (post.foldl forward p).queue = (post.foldl forward (p.forward e)).queue := by
      have hequs : (p.forward e).deferredEqu = p.deferredEqu := by rw [hforward]; rfl
      rw [hwithout, queue, queue, hds, hequs]
      rfl
    show (post.foldl forward p).queue.foldl retryRecord (post.foldl forward p) = _
    rw [hqueue, hwithout, foldl_retryRecord_hide]
    · rfl
    · intro d hd
      rw [← hqueue] at hd
      have h := avoids_of_mem_queue havoids hd
      rw [hwithout] at h
      exact h.congr rfl
  · have hrest := (forward_admits hadmits).2
    rw [← context_forward p e] at hrest
    have hgrow : (p.run (e :: post)).table.Extends (p.forward e).table := run_extends hrest
    rw [hforward] at hgrow
    exact hgrow.lookup? lookup?_assign

/-- An `EQU` that is set aside stands in the queue between the others, and is all that differs. -/
theorem split_of_defers {key : String × String} (hequ : e.directive = .equ) (hd : p.Defers e)
    (habsent : p.table.get? key = none) (havoids : ∀ r ∈ post, r.Avoids p.table p.context key) :
    ∃ equs back, post.foldl forward p = ((e :: post).foldl forward p).hide key equs ∧
      (post.foldl forward p).queue = p.deferredEqu ++ back ∧
      ((e :: post).foldl forward p).queue = p.deferredEqu ++ ⟨e, p.counter⟩ :: back := by
  have hforward : p.forward e =
      { p with deferredEqu := p.deferredEqu ++ [⟨e, p.counter⟩] } := by
    rw [hd.forward, defer, if_pos hequ]
  have hhide : (p.forward e).hide key p.deferredEqu = p := by
    rw [hforward]
    exact hide_of_get? habsent
  obtain ⟨ds, hds, hwithout⟩ := foldl_forward_of_hide havoids hhide
  rw [hforward] at hds
  refine ⟨p.deferredEqu ++ ds, ds ++ ((e :: post).foldl forward p).deferredStorage, hwithout, ?_, ?_⟩
  · rw [hwithout, queue]
    simp [hide]
  · rw [List.foldl_cons, queue, hforward, hds]
    simp

/-- An `EQU` that is set aside, and whose number is known when all records have been read once. -/
theorem run_insert_of_defers (hequ : e.directive = .equ) (hlabel : e.label = some label)
    (hadmits : p.table.Admits p.context (p.pending (e :: post)))
    (havoids : ∀ r ∈ p.pending post, r.Avoids p.table p.context (p.table.keyOf p.context label))
    (hcounter : ¬ Expr.UsesCounter e.operand) (hd : p.Defers e)
    (hv : Expr.evaluate ((post.foldl forward p).lookups counter) e.operand = .ok ⟨.int v, type⟩) :
    (∃ equs, p.run post = (p.run (e :: post)).hide (p.table.keyOf p.context label) equs) ∧
      (p.run (e :: post)).table.lookup? p.context label =
        some (p.table.made p.context label v 1) := by
  obtain ⟨equs, back, hwithout, hqueue', hqueue⟩ := split_of_defers hequ hd
    (hadmits.fresh e (by simp [pending]) label hlabel)
    fun r hr => havoids r (List.mem_append_left _ hr)
  set q := (e :: post).foldl forward p with hq
  set key := p.table.keyOf p.context label with hkey
  have hall : ∀ d ∈ p.deferredEqu ++ back, d.record.Avoids q.table q.context key := by
    intro d hmem
    rw [← hqueue'] at hmem
    have h := avoids_of_mem_queue havoids hmem
    rw [hwithout] at h
    exact h.congr rfl
  have hcontext : q.context = p.context := by rw [hq, context_foldl_forward]
  -- the state in which the `EQU` is read again, and how it stands to the run without it
  set m := p.deferredEqu.foldl retryRecord q with hm
  have hmcontext : m.context = p.context := by rw [hm, context_foldl_retryRecord, hcontext]
  have hmfold : m.table.foldCase = p.table.foldCase := by
    have h := foldl_retryRecord_sameOutside q p.deferredEqu
    exact h.foldCase.trans (foldl_forward_sameOutside p (e :: post)).foldCase
  have hmhide : p.deferredEqu.foldl retryRecord (post.foldl forward p) = m.hide key equs := by
    rw [hwithout, foldl_retryRecord_hide fun d hmem => hall d (List.mem_append_left _ hmem)]
  have hgrow : m.table.Extends (post.foldl forward p).table := by
    have h := (queue_admits hadmits.tail).2
    rw [hqueue', List.map_append] at h
    have hext := (foldl_retryRecord_admits h).1
    rw [hmhide] at hext
    exact (SymbolTable.extends_erase m.table key).trans hext
  -- what the earlier retries add keeps the number of the `EQU`
  have hretry : m.retryRecord ⟨e, p.counter⟩ = m.assign label v :=
    retryRecord_equ hequ hlabel hcounter hv hgrow
      (hmcontext.trans (context_foldl_forward p post).symm)
  have hrun : p.run (e :: post) = back.foldl retryRecord (m.assign label v) := by
    show q.queue.foldl retryRecord q = _
    rw [hqueue, List.foldl_append, List.foldl_cons, ← hm, hretry]
  have hmkey : m.table.keyOf m.context label = key := by
    rw [hkey, hmcontext, SymbolTable.keyOf_congr hmfold]
  constructor
  · refine ⟨equs, ?_⟩
    have hassign : m.hide key equs = (m.assign label v).hide key equs := by
      rw [← hmkey, hide_assign]
    show (post.foldl forward p).queue.foldl retryRecord (post.foldl forward p) = _
    rw [hqueue', List.foldl_append, hmhide, hassign, foldl_retryRecord_hide, hrun]
    intro d hmem
    have h := hall d (List.mem_append_right _ hmem)
    have hcontext' : (m.assign label v).context = q.context := hmcontext.trans hcontext.symm
    rw [hcontext']
    refine h.congr (SymbolTable.foldCase_define.trans ?_)
    exact (foldl_retryRecord_sameOutside q p.deferredEqu).foldCase
  · have h := (queue_admits hadmits).2
    rw [← hq, hqueue, List.map_append, List.map_cons] at h
    have hadmits' := (foldl_retryRecord_admits h).2
    rw [← hm, hcontext, ← hmcontext] at hadmits'
    obtain ⟨-, hback⟩ := hadmits'.writes (retryRecord_writes m ⟨e, p.counter⟩)
    rw [hretry] at hback
    have hfinal := foldl_retryRecord_extends (p := m.assign label v) hback
    have hlookup := hfinal.lookup? lookup?_assign
    rwa [hrun, ← SymbolTable.made_congr hmfold, ← hmcontext]

/-- Wherever an `EQU` stands, its label gets its number and the run is that of the other records but
for this label. -/
theorem run_insert {pre : List Record} (hequ : e.directive = .equ) (hlabel : e.label = some label)
    (hadmits : p.table.Admits p.context (p.pending (pre ++ e :: post)))
    (havoids : ∀ r ∈ p.pending (pre ++ post),
      r.Avoids p.table p.context (p.table.keyOf p.context label))
    (hcounter : ¬ Expr.UsesCounter e.operand)
    (hv : Expr.evaluate (((pre ++ post).foldl forward p).lookups counter) e.operand =
      .ok ⟨.int v, type⟩) :
    (∃ equs, p.run (pre ++ post) =
        (p.run (pre ++ e :: post)).hide (p.table.keyOf p.context label) equs) ∧
      (p.run (pre ++ e :: post)).table.lookup? p.context label =
        some (p.table.made p.context label v 1) := by
  rw [run_append, run_append]
  rw [List.foldl_append] at hv
  set q := pre.foldl forward p with hq
  have hcontext : q.context = p.context := context_foldl_forward p pre
  have hfold : q.table.foldCase = p.table.foldCase := (foldl_forward_sameOutside p pre).foldCase
  have hkey : q.table.keyOf q.context label = p.table.keyOf p.context label := by
    rw [hcontext, SymbolTable.keyOf_congr hfold]
  have hmade : q.table.made q.context label v 1 = p.table.made p.context label v 1 := by
    rw [hcontext, SymbolTable.made_congr hfold]
  have hadmits' : q.table.Admits q.context (q.pending (e :: post)) := by
    rw [hcontext]
    exact (foldl_forward_admits hadmits).2
  have havoids' : ∀ r ∈ q.pending post, r.Avoids q.table q.context (q.table.keyOf q.context label) := by
    intro r hr
    rw [hkey, hcontext]
    exact (havoids r (pending_foldl_forward hr)).congr hfold
  have hgrow : (post.foldl forward q).table.Extends q.table := (queue_admits hadmits'.tail).1
  rw [← hkey, ← hmade, ← hcontext]
  rcases number_or_defers hequ hcounter hv hgrow (context_foldl_forward q post) with hnumber | hd
  · exact run_insert_of_ok hequ hlabel hadmits' havoids' hnumber
  · exact run_insert_of_defers hequ hlabel hadmits' havoids' hcounter hd hv

end AsmLayout.Pass
