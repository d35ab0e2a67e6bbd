import AsmLayout.Proofs.Layout.Conclusions
import AsmLayout.Proofs.Session.Invariant

/-!
# Every record is accounted for

Main statement: `Session.resolve_accounts`. The diagnostics and the labels of a layout are those of
its records, record by record: first those of the records that are read once, then those of the `EQU`
records that had to wait, then those of the storage that had to.
-/

namespace AsmLayout.Session

variable {s : Session} {context : String} {records : List Record}

theorem symbols_conclusions (hs : s.Owned) (hnew : s.layout? context = none)
    (hdistinct : ((records.filterMap Record.label).map s.table.normalize).Nodup) :
    (s.resolve context records).1.symbols =
      ((s.firstPass context).conclusions records).flatMap Visit.entries := by
  obtain ⟨-, -, -, hentries, -⟩ := hs.resolve_new hnew records
  rw [table_resolve hnew,
    Pass.entries_conclusions (p := s.firstPass context) rfl (hs.admits hnew hdistinct)] at hentries
  exact (List.append_cancel_left hentries).symm

/-- In a newly resolved context every record ends in one visit, its first or, if it waits, its
second. An `EQU`, a `DS` or a `DC` gives its label values there or leaves one diagnostic; an `ORG`
leaves one diagnostic at most and a `DSECT` none. The diagnostics of the layout, and its labels where
they differ, are those of the records in the order of these visits. -/
theorem resolve_accounts (hs : s.Reachable) (hnew : s.layout? context = none)
    (records : List Record) :
    let p := s.firstPass context
    let layout := (s.resolve context records).1
    let batches := [p.atOnce records, p.laterEqus records, p.laterStorage records]
    let ended := batches.flatten
    -- the visits in which records end
    (ended.map Visit.position).Perm (List.range records.length) ∧
      (∀ v ∈ ended, records[v.position]? = some v.record) ∧
      (∀ batch ∈ batches, (batch.map Visit.position).Pairwise (· < ·)) ∧
      (∀ v ∈ p.laterEqus records, v.record.directive = .equ) ∧
      (∀ v ∈ p.laterStorage records, v.record.directive = .ds ∨ v.record.directive = .dc) ∧
      -- what a record comes to
      (∀ v ∈ ended, v.record.directive.mayWait = true →
        (∃ displacement length, v.values? = some (displacement, length) ∧
            v.after.table = (v.before.define v.record.label displacement length).table ∧
            v.diagnostics = []) ∨
          v.values? = none ∧ v.after.table = v.before.table ∧ ∃ d, v.diagnostics = [d]) ∧
      (∀ v ∈ ended, v.record.directive = .org → v.diagnostics.length ≤ 1) ∧
      (∀ v ∈ ended, v.record.directive = .dsect → v.diagnostics = []) ∧
      (∀ v ∈ p.atOnce records, ∀ d ∈ v.diagnostics,
        d.kind = .invalidSymbolKey ∨ d.kind = .invalidLengthKey → v.record.directive = .org) ∧
      (∀ v ∈ ended, ∀ d ∈ v.diagnostics, d.line = v.record.render ∧ d.context = layout.context) ∧
      -- the layout
      layout.diagnostics = ended.flatMap Visit.diagnostics ∧
      (((records.filterMap Record.label).map s.table.normalize).Nodup →
        layout.symbols = ended.flatMap Visit.entries) := by
  intro p layout batches ended
  have hended : ended = p.conclusions records := by
    show p.atOnce records ++ (p.laterEqus records ++ (p.laterStorage records ++ [])) = _
    rw [List.append_nil]
    rfl
  rw [hended]
  have hconcludes : ∀ v ∈ p.conclusions records, v.Concludes :=
    fun v => Pass.concludes_of_mem_conclusions
  refine ⟨Pass.positions_conclusions p records, fun v => Pass.record_of_mem_conclusions,
    Pass.positions_batches p records, fun v => Pass.directive_laterEqus,
    fun v => Pass.directive_laterStorage, fun v hv => (hconcludes v hv).cases_of_mayWait,
    fun v hv _ => (hconcludes v hv).length_diagnostics,
    fun v hv => (hconcludes v hv).diagnostics_of_dsect, ?_, ?_, ?_, ?_⟩
  · intro v hv d hd hkind
    have hwaits : v.waits = false := by simpa using (List.mem_filter.1 hv).2
    exact (hconcludes v (List.mem_append_left _ hv)).org_of_undefined hwaits hd hkind
  · intro v hv d hd
    obtain ⟨hline, hcontext⟩ := (hconcludes v hv).about hd
    refine ⟨hline, hcontext.trans ((Pass.context_of_mem_conclusions hv).trans ?_)⟩
    exact (hs.owned.resolve_new hnew records).1.symm
  · have hrun : layout.diagnostics = (p.run records).diagnostics := by
      show (s.resolve context records).1.diagnostics = _
      rw [resolve_of_new hnew]
    rw [hrun, Pass.diagnostics_conclusions rfl]
  · exact symbols_conclusions hs.owned hnew

/-- Of three records that wait one fails; an `ORG` fails and keeps its label. -/
theorem resolve_accounts_mixed :
    let s := start .standard true
    let records : List Record := [⟨some "A", .ds, "CL(L'GHOST)"⟩, ⟨some "B", .equ, "C+1"⟩,
      ⟨some "C", .ds, "F"⟩, ⟨some "X", .org, "GHOST"⟩, ⟨none, .dsect, ""⟩, ⟨some "D", .dc, "XL(B)"⟩]
    let p := s.firstPass "REC"
    let layout := (s.resolve "REC" records).1
    let ended := [p.atOnce records, p.laterEqus records, p.laterStorage records].flatten
    ended.map Visit.position = [2, 3, 4, 1, 0, 5] ∧
      (ended.map Visit.position).Perm (List.range 6) ∧
      layout.diagnostics = ended.flatMap Visit.diagnostics ∧
      layout.symbols = ended.flatMap Visit.entries ∧
      layout.symbols.map SymbolEntry.label = ["C", "X", "B", "D"] := by
  intro s records p layout ended
  have hnew : s.layout? "REC" = none := rfl
  obtain ⟨hpositions, -, -, -, -, -, -, -, -, -, hdiagnostics, hsymbols⟩ :=
    resolve_accounts (.start .standard true) hnew records
  have hentries := hsymbols (by decide +kernel)
  refine ⟨by decide +kernel, hpositions, hdiagnostics, hentries, ?_⟩
  show (s.resolve "REC" records).1.symbols.map SymbolEntry.label = _
  rw [hentries]
  decide +kernel

end AsmLayout.Session
