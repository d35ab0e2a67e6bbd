import AsmLayout.Proofs.Layout.Reports
import AsmLayout.Proofs.Session.History
import Mathlib.Data.Finset.Insert

/-!
# Failed records may be left out

A record that fails has no effect on its context beyond its diagnostic, so that the context comes
out the same without it. Main statement: `Session.resolve_omits`.
-/

namespace AsmLayout.Session

/-- Leave out any records that leave a diagnostic, none of them an `ORG` with a label: the labels
and the size stay, and of the diagnostics exactly those of the records left out are missing. -/
theorem resolve_omits {s : Session} {context : String} (hnew : s.layout? context = none)
    (records : List Record) (bad : Finset Nat) :
    let reports := (s.firstPass context).reports records
    let whole := s.resolve context records
    let rest := s.resolve context ((records.zipIdx.filter fun x => x.2 ∉ bad).map Prod.fst)
    (∀ i ∈ bad, i ∈ reports.map Prod.snd ∧
      ∀ r ∈ records[i]?, r.directive = .org → r.label = none) →
    whole.1.diagnostics = reports.map Prod.fst ∧
      (∀ d i, (d, i) ∈ reports → ∃ r, records[i]? = some r ∧ d.line = r.render) ∧
      rest.1.symbols = whole.1.symbols ∧ rest.1.size = whole.1.size ∧
      rest.1.diagnostics = (reports.filter fun x => x.2 ∉ bad).map Prod.fst ∧
      rest.2.table = whole.2.table := by
  intro reports whole rest hbad
  have hfails : ∀ i, decide (i ∉ bad) = false → (s.firstPass context).Fails records i :=
    fun i hi => hbad i (not_not.1 (of_decide_eq_false hi))
  obtain ⟨log, hrun, hlog⟩ :=
    Pass.run_keptFrom (p := s.firstPass context) rfl records (fun i => decide (i ∉ bad)) hfails
  have htable := congrArg Pass.table hrun
  rw [Pass.view, SymbolTable.restrict_true] at htable
  have hsize := congrArg Pass.highWater hrun
  have hdiagnostics := (congrArg Pass.diagnostics hrun).trans hlog
  have hwhole : whole = _ := resolve_of_new hnew
  have hrest : rest = _ := resolve_of_new hnew
  rw [hwhole, hrest]
  exact ⟨Pass.diagnostics_run rfl records, fun d i => Pass.line_of_mem_reports,
    congrArg (SymbolTable.entriesIn · _) htable, hsize, hdiagnostics, htable⟩

/-- An `EQU` that fails when it is read again and an `ORG` in front of the context are left out; a
bad duplication factor stays, and so does its diagnostic. -/
theorem resolve_omits_two :
    let s := start .standard true
    let records : List Record := [⟨some "B", .ds, "F"⟩, ⟨some "C", .equ, "MISSING+1"⟩,
      ⟨none, .org, "B-8"⟩, ⟨some "D", .ds, "XL(E)"⟩, ⟨some "B", .ds, "(0-1)F"⟩,
      ⟨some "E", .equ, "2"⟩]
    let kept : List Record := [⟨some "B", .ds, "F"⟩, ⟨some "D", .ds, "XL(E)"⟩,
      ⟨some "B", .ds, "(0-1)F"⟩, ⟨some "E", .equ, "2"⟩]
    (s.resolve "REC" kept).1.symbols = (s.resolve "REC" records).1.symbols ∧
      (s.resolve "REC" kept).1.size = (s.resolve "REC" records).1.size ∧
      (s.resolve "REC" kept).1.diagnostics =
        (((s.firstPass "REC").reports records).filter fun x => x.2 = 4).map Prod.fst := by
  intro s records kept
  have hnew : s.layout? "REC" = none := rfl
  obtain ⟨-, -, hsymbols, hsize, hdiagnostics, -⟩ :=
    resolve_omits hnew records {1, 2} (by decide +kernel)
  exact ⟨hsymbols, hsize, hdiagnostics.trans (by decide +kernel)⟩

end AsmLayout.Session
