import AsmLayout.Proofs.Layout.LetterCase
import AsmLayout.Proofs.Session.History

/-!
# Letter case in a session

Main statement: `Session.resolve_sameButCase` (a session that folds case resolves a context alike
however the ASCII letters in it are written).
-/

namespace AsmLayout.Session

variable {s s' : Session} {context context' : String} {records records' : List Record}

/-- The passes of two sessions over a context begin alike, if their tables are equal and fold
case. -/
theorem firstPass_sameButCase (hfold : s.table.foldCase = true) (htable : s'.table = s.table)
    (hcontext : Text.sameAsciiLetters context context' = true) :
    (s.firstPass context).SameButCase (s'.firstPass context') := by
  have hname : s'.table.normalize context' = s.table.normalize context := by
    rw [htable, SymbolTable.normalize_sameAsciiLetters hfold hcontext]
  exact ⟨hfold, hname, htable, rfl, rfl, .nil, .nil, rfl⟩

/-- In sessions with the same labels that fold case, contexts that differ in the case of ASCII
letters get the same symbols, the same size and diagnostics of the same kinds. -/
theorem resolve_sameButCase (hfold : s.table.foldCase = true) (htable : s'.table = s.table)
    (hcontext : Text.sameAsciiLetters context context' = true)
    (hrecords : List.Forall₂ Record.SameButCase records records')
    (hnew : s.layout? context = none) (hnew' : s'.layout? context' = none) :
    (s.resolve context records).1.symbols = (s'.resolve context' records').1.symbols ∧
    (s.resolve context records).1.size = (s'.resolve context' records').1.size ∧
    (s.resolve context records).1.diagnostics.map Diagnostic.kind =
      (s'.resolve context' records').1.diagnostics.map Diagnostic.kind := by
  have hfirst := firstPass_sameButCase hfold htable hcontext
  have hrun := hfirst.run hrecords
  have hname : s'.table.normalize context' = s.table.normalize context := hfirst.context
  rw [resolve_of_new hnew, resolve_of_new hnew']
  refine ⟨?_, hrun.highWater.symm, hrun.kinds⟩
  show ((s.firstPass context).run records).table.entriesIn _ =
    ((s'.firstPass context').run records').table.entriesIn _
  rw [hrun.table, hname]

/-- A deferred length attribute, hexadecimal digits in a length and a name that stays undefined, in a
new session and in one that has resolved another context. -/
theorem resolve_sameButCase_deferred :
    let s := start .standard true
    let s' := (s.resolve "OTHER" [⟨none, .ds, "F"⟩]).2
    let records : List Record := [⟨some "Twice", .equ, "L'fld*2"⟩, ⟨some "Fld", .ds, "cL(x'0a')"⟩,
      ⟨none, .org, "nowhere"⟩]
    let records' : List Record := [⟨some "TWICE", .equ, "l'FLD*2"⟩, ⟨some "fLD", .ds, "Cl(X'0A')"⟩,
      ⟨none, .org, "NOWHERE"⟩]
    (s.resolve "rec" records).1.symbols = [⟨"FLD", 0, 10, "REC"⟩, ⟨"TWICE", 20, 1, "REC"⟩] ∧
    (s'.resolve "Rec" records').1.symbols = [⟨"FLD", 0, 10, "REC"⟩, ⟨"TWICE", 20, 1, "REC"⟩] ∧
    (s'.resolve "Rec" records').1.size = 10 ∧
    (s'.resolve "Rec" records').1.diagnostics.map Diagnostic.kind = [.invalidSymbolKey] := by
  intro s s' records records'
  have hrecords : List.Forall₂ Record.SameButCase records records' :=
    .cons ⟨rfl, .some (by decide), by decide⟩ (.cons ⟨rfl, .some (by decide), by decide⟩
      (.cons ⟨rfl, .none, by decide⟩ .nil))
  obtain ⟨hsymbols, hsize, hkinds⟩ := @resolve_sameButCase s s' "rec" "Rec" records records' rfl
    (by decide +kernel) (by decide) hrecords rfl (by decide +kernel)
  have hresolved : (s.resolve "rec" records).1.symbols =
      [⟨"FLD", 0, 10, "REC"⟩, ⟨"TWICE", 20, 1, "REC"⟩] := by decide +kernel
  refine ⟨hresolved, hsymbols ▸ hresolved, ?_, ?_⟩
  · rw [← hsize]
    decide +kernel
  · rw [← hkinds]
    decide +kernel

end AsmLayout.Session
