import AsmLayout.Proofs.Layout.Step

/-!
# The table grows during a pass

Where the records of a context carry different labels, none of them in the table yet, a pass only
adds to its table. `SymbolTable.Admits` is the invariant: it holds of the records to come together
with those set aside. Main statements: `Pass.foldl_forward_admits`, `Pass.foldl_retryRecord_admits`
(both passes keep it and extend the table), `Pass.run_preserves` (a run is a series of definitions in
its context) and `Pass.run_sameOutside` (whatever the labels, other contexts are left alone).
-/

namespace AsmLayout

namespace SymbolTable

variable {t t' : SymbolTable} {context : String} {r : Record} {rs rs' : List Record}

/-- The labels of the records differ, and the context has none of them. -/
structure Admits (t : SymbolTable) (context : String) (records : List Record) : Prop where
  nodup : ((records.filterMap Record.label).map t.normalize).Nodup
  fresh : ∀ r ∈ records, ∀ l ∈ r.label, t.get? (t.keyOf context l) = none

theorem Admits.perm (h : t.Admits context rs) (hp : rs.Perm rs') : t.Admits context rs' :=
  ⟨((hp.filterMap _).map _).nodup_iff.1 h.nodup, fun r hr => h.fresh r (hp.mem_iff.2 hr)⟩

theorem Admits.tail (h : t.Admits context (r :: rs)) : t.Admits context rs :=
  ⟨h.nodup.sublist (((List.sublist_cons_self r rs).filterMap _).map _),
    fun r' hr' => h.fresh r' (List.mem_cons_of_mem r hr')⟩

/-- A label to come may be defined: the table grows and admits the rest. -/
theorem Admits.writes (h : t.Admits context (r :: rs)) (hw : t.Writes context r.label t') :
    t'.Extends t ∧ t'.Admits context rs := by
  rcases hw with rfl | ⟨l, d, n, hl, rfl⟩
  · exact ⟨.refl _, h.tail⟩
  refine ⟨.define (h.fresh r (by simp) l hl), ?_, fun r' hr' l' hl' => ?_⟩
  · rw [normalize_define]
    exact h.tail.nodup
  · rw [keyOf_define, get?_define, if_neg]
    · exact h.fresh r' (List.mem_cons_of_mem r hr') l' hl'
    · intro hkey
      have hnodup := h.nodup
      rw [List.filterMap_cons_some hl, List.map_cons, List.nodup_cons] at hnodup
      refine hnodup.1 (List.mem_map.2 ⟨l', List.mem_filterMap.2 ⟨r', hr', hl'⟩, ?_⟩)
      exact (Prod.mk.injEq .. ▸ hkey).2

end SymbolTable

namespace Pass

variable {p : Pass} {r : Record} {d : Deferred} {rs rest : List Record} {ds ds' : List Deferred}

/-- The records set aside, in the order in which they are read again. -/
def queue (p : Pass) : List Deferred := p.deferredEqu ++ p.deferredStorage

/-- The records whose labels are still to come when `rest` is to be read. -/
def pending (p : Pass) (rest : List Record) : List Record := rest ++ p.queue.map Deferred.record

theorem queues_defer (p : Pass) (r : Record) :
    (p.defer r).deferredEqu =
      p.deferredEqu ++ (if r.directive = .equ then [⟨r, p.counter⟩] else []) ∧
    (p.defer r).deferredStorage =
      p.deferredStorage ++ (if r.directive = .equ then [] else [⟨r, p.counter⟩]) := by
  unfold defer
  by_cases hequ : r.directive = .equ <;> simp [hequ]

theorem queues_forward_of_not (h : ¬ p.Defers r) : (p.forward r).deferredEqu = p.deferredEqu ∧
    (p.forward r).deferredStorage = p.deferredStorage := by
  rcases forward_cases p r with ⟨effect, -, heq⟩ | ⟨hd, -⟩ | ⟨e, -, -, heq⟩
  · rw [heq, advance_eq, settle_eq, markOrigin_eq]; exact ⟨rfl, rfl⟩
  · exact absurd hd h
  · rw [heq, markOrigin_eq]; exact ⟨rfl, rfl⟩

/-- A record that is set aside goes from the front of the records to come into the queue. -/
theorem pending_forward (h : p.Defers r) :
    (p.pending (r :: rest)).Perm ((p.forward r).pending rest) := by
  obtain ⟨hequ, hstorage⟩ := queues_defer p r
  rw [h.forward]
  unfold pending queue
  rw [hequ, hstorage, List.perm_iff_count]
  intro x
  by_cases hdir : r.directive = .equ <;>
    simp only [hdir, if_true, if_false, List.map_append, List.map_cons, List.map_nil,
      List.count_append, List.count_cons, List.count_nil] <;> omega

theorem pending_forward_of_not (h : ¬ p.Defers r) : (p.forward r).pending rest = p.pending rest := by
  obtain ⟨hequ, hstorage⟩ := queues_forward_of_not h
  unfold pending queue
  rw [hequ, hstorage]

theorem pending_foldl_forward (h : r ∈ (rs.foldl forward p).pending rest) :
    r ∈ p.pending (rs ++ rest) := by
  induction rs generalizing p with
  | nil => exact h
  | cons x rs ih =>
    have htail := ih h
    by_cases hd : p.Defers x
    · exact (pending_forward hd).mem_iff.2 htail
    · rw [pending_forward_of_not hd] at htail
      exact List.mem_cons_of_mem x htail

theorem forward_admits (h : p.table.Admits p.context (p.pending (r :: rest))) :
    (p.forward r).table.Extends p.table ∧
      (p.forward r).table.Admits p.context ((p.forward r).pending rest) := by
  by_cases hd : p.Defers r
  · have htable : (p.forward r).table = p.table := by rw [hd.forward]; exact (defer_fixed p r).2
    rw [htable]
    exact ⟨.refl _, h.perm (pending_forward hd)⟩
  · rw [pending_forward_of_not hd]
    have h' : p.table.Admits p.context (r :: p.pending rest) := h
    exact h'.writes (forward_writes p r)

theorem foldl_forward_admits (h : p.table.Admits p.context (p.pending (rs ++ rest))) :
    (rs.foldl forward p).table.Extends p.table ∧
      (rs.foldl forward p).table.Admits p.context ((rs.foldl forward p).pending rest) := by
  induction rs generalizing p with
  | nil => exact ⟨.refl _, h⟩
  | cons r rs ih =>
    obtain ⟨hext, hadm⟩ := forward_admits h
    rw [← context_forward p r] at hadm ⊢
    obtain ⟨hext', hadm'⟩ := ih hadm
    exact ⟨hext'.trans hext, hadm'⟩

theorem foldl_retryRecord_admits
    (h : p.table.Admits p.context (ds.map Deferred.record ++ rest)) :
    (ds.foldl retryRecord p).table.Extends p.table ∧
      (ds.foldl retryRecord p).table.Admits p.context rest := by
  induction ds generalizing p with
  | nil => exact ⟨.refl _, h⟩
  | cons d ds ih =>
    have h' : p.table.Admits p.context (d.record :: (ds.map Deferred.record ++ rest)) := h
    obtain ⟨hext, hadm⟩ := h'.writes (retryRecord_writes p d)
    rw [← context_retryRecord p d] at hadm ⊢
    obtain ⟨hext', hadm'⟩ := ih hadm
    exact ⟨hext'.trans hext, hadm'⟩

/-- When all records have been read once, the labels of the queue are still to come. -/
theorem queue_admits (h : p.table.Admits p.context (p.pending rs)) :
    (rs.foldl forward p).table.Extends p.table ∧
      (rs.foldl forward p).table.Admits (rs.foldl forward p).context
        ((rs.foldl forward p).queue.map Deferred.record) := by
  rw [← List.append_nil rs] at h
  rw [context_foldl_forward]
  exact foldl_forward_admits h

theorem foldl_retryRecord_extends (h : p.table.Admits p.context (ds.map Deferred.record)) :
    (ds.foldl retryRecord p).table.Extends p.table := by
  rw [← List.append_nil (ds.map Deferred.record)] at h
  exact (foldl_retryRecord_admits h).1

@[simp] theorem context_run (p : Pass) (rs : List Record) : (p.run rs).context = p.context :=
  (context_foldl_retryRecord (rs.foldl forward p) _).trans (context_foldl_forward p rs)

theorem run_append (p : Pass) (rs rest : List Record) :
    p.run (rs ++ rest) = (rs.foldl forward p).run rest := by
  unfold run
  rw [List.foldl_append]

theorem run_extends (h : p.table.Admits p.context (p.pending rs)) :
    (p.run rs).table.Extends p.table := by
  obtain ⟨hforward, hqueue⟩ := queue_admits h
  exact (foldl_retryRecord_extends hqueue).trans hforward

section

variable {P : SymbolTable → Prop}

/-- Whatever single definitions in the context preserve, reading records preserves. -/
theorem foldl_forward_preserves (rs : List Record) (h : P p.table)
    (hstep : ∀ t label t', P t → t.Writes p.context label t' → P t') :
    P (rs.foldl forward p).table := by
  induction rs generalizing p with
  | nil => exact h
  | cons r rs ih =>
    refine ih (hstep _ _ _ h (forward_writes p r)) fun t label t' ht hw => ?_
    rw [context_forward] at hw
    exact hstep t label t' ht hw

theorem foldl_retryRecord_preserves (ds : List Deferred) (h : P p.table)
    (hstep : ∀ t label t', P t → t.Writes p.context label t' → P t') :
    P (ds.foldl retryRecord p).table := by
  induction ds generalizing p with
  | nil => exact h
  | cons d ds ih =>
    refine ih (hstep _ _ _ h (retryRecord_writes p d)) fun t label t' ht hw => ?_
    rw [context_retryRecord] at hw
    exact hstep t label t' ht hw

theorem run_preserves (rs : List Record) (h : P p.table)
    (hstep : ∀ t label t', P t → t.Writes p.context label t' → P t') : P (p.run rs).table := by
  refine foldl_retryRecord_preserves _ (foldl_forward_preserves rs h hstep) ?_
  rw [context_foldl_forward]
  exact hstep

end

theorem foldl_forward_sameOutside (p : Pass) (rs : List Record) :
    p.table.SameOutside p.context (rs.foldl forward p).table :=
  foldl_forward_preserves rs (.refl _ _) fun _ _ _ h hw => h.trans hw.sameOutside

theorem foldl_retryRecord_sameOutside (p : Pass) (ds : List Deferred) :
    p.table.SameOutside p.context (ds.foldl retryRecord p).table :=
  foldl_retryRecord_preserves ds (.refl _ _) fun _ _ _ h hw => h.trans hw.sameOutside

/-- A run leaves the entries of other contexts alone, whatever its labels. -/
theorem run_sameOutside (p : Pass) (rs : List Record) :
    p.table.SameOutside p.context (p.run rs).table :=
  run_preserves rs (.refl _ _) fun _ _ _ h hw => h.trans hw.sameOutside

end Pass
end AsmLayout
