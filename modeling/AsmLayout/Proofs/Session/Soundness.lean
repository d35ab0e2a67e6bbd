import AsmLayout.Proofs.Layout.Soundness
import AsmLayout.Proofs.Session.History

/-!
# The finished table solves its own equations

Main statement: `Session.resolve_sound`. Whatever is resolved before and after, the entry of a label
is what the operand of its record comes to against the finished table, at the counter that the
record met.
-/

namespace AsmLayout.Session

variable {s : Session} {context label : String} {r : Record} {pre post : List Record}

theorem firstPass_solves (hs : s.Owned) (hnew : s.layout? context = none)
    (hdistinct : (((pre ++ r :: post).filterMap Record.label).map s.table.normalize).Nodup)
    (hl : r.label = some label) (hr : r.directive.mayWait = true)
    (hok : ¬ (s.firstPass context).Reported pre r post) (later : List ContextSource) :
    let s' := (s.resolve context (pre ++ r :: post)).2.resolveContexts later
    ∃ d n, r.Solves (s'.lookups context (pre.foldl Pass.forward (s.firstPass context)).counter) d n ∧
      s'.table.lookup? context label =
        some ⟨s'.table.normalize label, d, n, s'.table.normalize context⟩ := by
  intro s'
  obtain ⟨d, n, hsolves, hentry⟩ := Pass.run_solves (hs.admits hnew hdistinct) hl hr hok
  set p := (s.firstPass context).run (pre ++ r :: post) with hp
  have htable : (s.resolve context (pre ++ r :: post)).2.table = p.table := table_resolve hnew
  have hlater : s'.table.Extends p.table := by
    rw [← htable]
    exact (hs.resolve context (pre ++ r :: post)).resolveContexts_extends later
  have hpass : p.context = s.table.normalize context := Pass.context_run _ _
  have hfold : p.table.foldCase = s.table.foldCase :=
    (s.firstPass_sameOutside context (pre ++ r :: post)).foldCase
  -- contexts that are resolved later add to the table, and no more
  refine ⟨d, n, hsolves.extends rfl ?_, ?_⟩
  · show (s'.table.symbolsFrom context).Extends (p.table.symbolsFrom p.context)
    rw [hpass, ← SymbolTable.normalize_congr hfold, SymbolTable.symbolsFrom_normalize]
    exact hlater.symbolsFrom context
  · have hcontext : (s.firstPass context).context = p.table.normalize context := by
      rw [SymbolTable.normalize_congr hfold]
      rfl
    rw [hcontext, SymbolTable.lookup?_eq_get?, SymbolTable.keyOf_normalize,
      ← SymbolTable.lookup?_eq_get?] at hentry
    rw [hlater.lookup? hentry, SymbolTable.made, SymbolTable.normalize_normalize,
      SymbolTable.normalize_congr hlater.foldCase]

/-- In a newly resolved context whose labels differ, take a record that is read without complaint.
An `EQU` gives its label the number that its operand has in the end, with length one; a `DS` or `DC`
gives it the aligned counter and the length that its operand has in the end. -/
theorem resolve_sound (hs : s.Reachable) (hnew : s.layout? context = none)
    (hdistinct : (((pre ++ r :: post).filterMap Record.label).map s.table.normalize).Nodup)
    (hl : r.label = some label) (hok : ¬ (s.firstPass context).Reported pre r post)
    (later : List ContextSource) :
    let s' := (s.resolve context (pre ++ r :: post)).2.resolveContexts later
    let counter := (pre.foldl Pass.forward (s.firstPass context)).counter
    (r.directive = .equ →
      ∃ v type, s'.evaluate context r.operand counter = .ok ⟨.int v, type⟩ ∧
        s'.table.lookup? context label =
          some ⟨s'.table.normalize label, v, 1, s'.table.normalize context⟩) ∧
    (r.directive = .ds ∨ r.directive = .dc →
      ∃ op d, StorageOperand.decode (s'.lookups context counter) r.operand = .ok op ∧
        alignUp counter op.type.byteSize = some d ∧
        s'.table.lookup? context label =
          some ⟨s'.table.normalize label, d, op.length, s'.table.normalize context⟩) := by
  intro s' counter
  have hsolves := fun hr => firstPass_solves hs.owned hnew hdistinct hl hr hok later
  constructor
  · intro hequ
    obtain ⟨d, n, hsol, hentry⟩ := hsolves (by rw [hequ]; rfl)
    cases hsol with
    | equ hdir hv => exact ⟨d, _, hv, hentry⟩
    | storage hdir hop hdisp => rw [hequ] at hdir; exact absurd hdir (by decide)
  · intro hstorage
    obtain ⟨d, n, hsol, hentry⟩ := hsolves (by rcases hstorage with h | h <;> rw [h] <;> rfl)
    cases hsol with
    | equ hdir hv => rw [hdir] at hstorage; exact absurd hstorage (by decide)
    | storage hdir hop hdisp => exact ⟨_, d, hop, hdisp, hentry⟩

/-- An `EQU` that names storage behind it, and a `DS` whose length is that `EQU`: both are read
twice. -/
theorem resolve_sound_deferred :
    let s := ((start .standard true).resolve "REC"
      [⟨some "SIZE", .equ, "BUF+8"⟩, ⟨some "AREA", .ds, "XL(SIZE)"⟩, ⟨some "BUF", .ds, "F"⟩]).2
    (∃ v type, s.evaluate "REC" "BUF+8" 0 = .ok ⟨.int v, type⟩ ∧
      s.table.lookup? "REC" "SIZE" =
        some ⟨s.table.normalize "SIZE", v, 1, s.table.normalize "REC"⟩) ∧
    ∃ op d, StorageOperand.decode (s.lookups "REC" 0) "XL(SIZE)" = .ok op ∧
      alignUp 0 op.type.byteSize = some d ∧
      s.table.lookup? "REC" "AREA" =
        some ⟨s.table.normalize "AREA", d, op.length, s.table.normalize "REC"⟩ := by
  intro s
  have hquiet : (((start .standard true).firstPass "REC").run
      [⟨some "SIZE", .equ, "BUF+8"⟩, ⟨some "AREA", .ds, "XL(SIZE)"⟩,
        ⟨some "BUF", .ds, "F"⟩]).diagnostics = [] := by decide +kernel
  have hok : ∀ pre r post, pre ++ r :: post = [⟨some "SIZE", .equ, "BUF+8"⟩,
      ⟨some "AREA", .ds, "XL(SIZE)"⟩, ⟨some "BUF", .ds, "F"⟩] →
      ¬ ((start .standard true).firstPass "REC").Reported pre r post := by
    intro pre r post hrecords h
    obtain ⟨d, hd, -⟩ := h.exists_diagnostic
    rw [hrecords, hquiet] at hd
    cases hd
  have hnew : (start .standard true).layout? "REC" = none := rfl
  constructor
  · exact (resolve_sound (.start .standard true) hnew (by decide +kernel) rfl
      (hok [] _ _ rfl) []).1 rfl
  · have hcounter : (List.foldl Pass.forward ((start .standard true).firstPass "REC")
        [⟨some "SIZE", .equ, "BUF+8"⟩]).counter = 0 := by decide +kernel
    have h := (resolve_sound (.start .standard true) hnew (by decide +kernel) rfl
      (hok [⟨some "SIZE", .equ, "BUF+8"⟩] _ _ rfl) []).2 (.inl rfl)
    rw [hcounter] at h
    exact h

end AsmLayout.Session
