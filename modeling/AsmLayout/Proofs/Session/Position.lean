import AsmLayout.Proofs.Layout.Position
import AsmLayout.Proofs.Session.History

/-!
# Where an `EQU` stands in its context

Main statement: `Session.resolve_insert_equ`. An `EQU` whose operand has a number once the other
records have been read may be put anywhere among them, and only its own label tells.
-/

namespace AsmLayout.Session

variable {s : Session} {context label : String} {records pre post : List Record} {e : Record}

theorem find?_entriesIn (t : SymbolTable) (context label : String) :
    ((t.entriesIn context).find? fun e => e.label == t.normalize label) =
      t.lookup? context label := by
  rw [SymbolTable.lookup?_eq_get?, SymbolTable.entriesIn, SymbolTable.get?, List.find?_filter]
  congr 1
  funext e
  rw [Bool.eq_iff_iff, decide_eq_true_eq, beq_iff_eq, beq_iff_eq, beq_iff_eq, SymbolEntry.key,
    SymbolTable.keyOf, Prod.mk.injEq]

/-- The layout of a context that has just been resolved has the labels of the table. -/
theorem lookup?_resolve (hnew : s.layout? context = none) (label : String) :
    (s.resolve context records).1.lookup? label =
      ((s.firstPass context).run records).table.lookup? context label := by
  have hfold := (s.firstPass_sameOutside context records).foldCase
  rw [resolve_of_new hnew]
  refine (find?_entriesIn ((s.firstPass context).run records).table
    (s.table.normalize context) label).trans ?_
  rw [← SymbolTable.normalize_congr hfold, SymbolTable.lookup?_eq_get?, SymbolTable.keyOf_normalize,
    SymbolTable.lookup?_eq_get?]

theorem nodup_insert (hlabel : e.label = some label)
    (hdistinct : (((pre ++ post).filterMap Record.label).map s.table.normalize).Nodup)
    (hfresh : ∀ r ∈ pre ++ post, ∀ l ∈ r.label, s.table.normalize l ≠ s.table.normalize label) :
    (((pre ++ e :: post).filterMap Record.label).map s.table.normalize).Nodup := by
  have hperm : (pre ++ e :: post).Perm (e :: (pre ++ post)) := List.perm_middle
  rw [((hperm.filterMap Record.label).map s.table.normalize).nodup_iff,
    List.filterMap_cons_some hlabel, List.map_cons, List.nodup_cons]
  refine ⟨fun hmem => ?_, hdistinct⟩
  obtain ⟨l, hl, heq⟩ := List.mem_map.1 hmem
  obtain ⟨r, hr, hrl⟩ := List.mem_filterMap.1 hl
  exact hfresh r hr l hrl heq

/-- An `EQU` is put among the records of a new context, none of which has its label or refers to
it. If its operand names no counter and has a number when the others have been read once, then
wherever it stands its label gets that number, and all else is as without it. -/
theorem resolve_insert_equ (pre post : List Record) {v counter : Int64} {type : Option TypeCode}
    (hs : s.Reachable) (hnew : s.layout? context = none)
    (hdistinct : (((pre ++ post).filterMap Record.label).map s.table.normalize).Nodup)
    (hequ : e.directive = .equ) (hlabel : e.label = some label)
    (hfresh : ∀ r ∈ pre ++ post, ∀ l ∈ r.label, s.table.normalize l ≠ s.table.normalize label)
    (hunused : ∀ r ∈ pre ++ post, ∀ name ∈ r.references,
      s.table.target context name ≠ s.table.keyOf context label)
    (hcounter : ¬ Expr.UsesCounter e.operand)
    (hv : Expr.evaluate
      (((pre ++ post).foldl Pass.forward (s.firstPass context)).lookups counter) e.operand =
        .ok ⟨.int v, type⟩) :
    let inserted := s.resolve context (pre ++ e :: post)
    let plain := s.resolve context (pre ++ post)
    inserted.1.lookup? label =
        some ⟨s.table.normalize label, v, 1, s.table.normalize context⟩ ∧
      (∀ other, s.table.normalize other ≠ s.table.normalize label →
        inserted.1.lookup? other = plain.1.lookup? other) ∧
      inserted.2.table.erase (s.table.keyOf context label) = plain.2.table ∧
      inserted.1.size = plain.1.size ∧
      inserted.1.diagnostics = plain.1.diagnostics := by
  intro inserted plain
  set p := s.firstPass context with hp
  have hkey : p.table.keyOf p.context label = s.table.keyOf context label :=
    SymbolTable.keyOf_normalize
  have havoids : ∀ r ∈ p.pending (pre ++ post),
      r.Avoids p.table p.context (p.table.keyOf p.context label) := by
    intro r hr
    have hmem : r ∈ pre ++ post := by simpa [Pass.pending, Pass.queue, hp, firstPass, Pass.start] using hr
    refine ⟨fun l hl heq => hfresh r hmem l hl ?_, fun name hname => ?_⟩
    · exact (Prod.mk.injEq .. ▸ heq).2
    · rw [hkey]
      show s.table.target (s.table.normalize context) name ≠ _
      rw [SymbolTable.target_normalize]
      exact hunused r hmem name hname
  have hadmits := hs.owned.admits hnew (nodup_insert hlabel hdistinct hfresh)
  obtain ⟨⟨equs, hrun⟩, hentry⟩ := Pass.run_insert hequ hlabel hadmits havoids hcounter hv
  rw [hkey] at hrun
  have htable : (p.run (pre ++ e :: post)).table.erase (s.table.keyOf context label) =
      (p.run (pre ++ post)).table := by rw [hrun]; rfl
  have hkeyOf : (p.run (pre ++ e :: post)).table.keyOf = s.table.keyOf :=
    SymbolTable.keyOf_congr (s.firstPass_sameOutside context (pre ++ e :: post)).foldCase
  have hmade : p.table.made p.context label v 1 =
      ⟨s.table.normalize label, v, 1, s.table.normalize context⟩ := by
    show (⟨_, _, _, s.table.normalize (s.table.normalize context)⟩ : SymbolEntry) = _
    rw [SymbolTable.normalize_normalize]
    rfl
  refine ⟨?_, fun other hother => ?_, ?_, ?_, ?_⟩
  · have hscope : s.table.keyOf p.context label = s.table.keyOf context label := hkey
    rw [SymbolTable.lookup?_eq_get?, hkeyOf, hscope] at hentry
    rw [lookup?_resolve hnew, SymbolTable.lookup?_eq_get?, hkeyOf, ← hmade]
    exact hentry
  · rw [lookup?_resolve hnew, lookup?_resolve hnew, ← hp, ← htable, SymbolTable.lookup?_eq_get?,
      SymbolTable.lookup?_eq_get?]
    have herase : ((p.run (pre ++ e :: post)).table.erase (s.table.keyOf context label)).keyOf
        context other = s.table.keyOf context other := congrFun₂ hkeyOf context other
    rw [herase, hkeyOf]
    refine (SymbolTable.get?_erase_of_ne fun heq => hother ?_).symm
    exact (Prod.mk.injEq .. ▸ heq).2
  · show (s.resolve context (pre ++ e :: post)).2.table.erase _ =
      (s.resolve context (pre ++ post)).2.table
    rw [table_resolve hnew, table_resolve hnew]
    exact htable
  · show (s.resolve context (pre ++ e :: post)).1.size = (s.resolve context (pre ++ post)).1.size
    rw [resolve_of_new hnew, resolve_of_new hnew, ← hp]
    dsimp only
    rw [hrun]
    rfl
  · show (s.resolve context (pre ++ e :: post)).1.diagnostics =
      (s.resolve context (pre ++ post)).1.diagnostics
    rw [resolve_of_new hnew, resolve_of_new hnew, ← hp]
    dsimp only
    rw [hrun]
    rfl

/-- An `EQU` that names storage behind it, put before that storage. -/
theorem resolve_insert_equ_deferred :
    let s := start .standard true
    let inserted := s.resolve "REC" [⟨some "A", .ds, "F"⟩, ⟨some "LEN", .equ, "C+2"⟩,
      ⟨some "B", .equ, "C-A"⟩, ⟨some "C", .ds, "H"⟩]
    let plain := s.resolve "REC" [⟨some "A", .ds, "F"⟩, ⟨some "B", .equ, "C-A"⟩,
      ⟨some "C", .ds, "H"⟩]
    inserted.1.lookup? "LEN" = some ⟨s.table.normalize "LEN", 6, 1, s.table.normalize "REC"⟩ ∧
      (∀ other, s.table.normalize other ≠ s.table.normalize "LEN" →
        inserted.1.lookup? other = plain.1.lookup? other) ∧
      inserted.2.table.erase (s.table.keyOf "REC" "LEN") = plain.2.table ∧
      inserted.1.size = plain.1.size ∧
      inserted.1.diagnostics = plain.1.diagnostics := by
  have hv : Expr.evaluate (([⟨some "A", .ds, "F"⟩, ⟨some "B", .equ, "C-A"⟩,
      ⟨some "C", .ds, "H"⟩].foldl Pass.forward ((start .standard true).firstPass "REC")).lookups 0)
        "C+2" = .ok ⟨.int 6, none⟩ := by decide +kernel
  exact resolve_insert_equ [⟨some "A", .ds, "F"⟩] [⟨some "B", .equ, "C-A"⟩, ⟨some "C", .ds, "H"⟩]
    (.start .standard true) rfl (by decide +kernel) rfl rfl (by decide +kernel)
    (by decide +kernel) (by decide +kernel) hv

end AsmLayout.Session
