import AsmLayout.Command
import AsmLayout.Proofs.Json.RoundTrip
import AsmLayout.Proofs.Session.Contexts

/-!
# The report on a layout file

The report on an accepted file has a layout for each of its contexts, and its counts are those of the
file, of the symbol table and of the diagnostics of the session. Main statement:
`Command.resolve_reports`.
-/

namespace AsmLayout

theorem Diagnostic.wellFormed_toJson (d : Diagnostic) : d.toJson.WellFormed := by
  refine .record fun m hm => ?_
  rcases List.mem_append.1 hm with hm | hm
  · simp only [List.mem_cons, List.not_mem_nil, or_false] at hm
    rcases hm with rfl | rfl | rfl <;> exact .text _
  · split at hm
    · cases hm
    · rw [List.mem_singleton.1 hm]
      exact .text _

namespace LayoutReport

variable {r : LayoutReport} {s : Session}

theorem status_eq_ok_iff : r.status = "ok" ↔ r.diagnostics = [] := by
  rw [status, ← List.isEmpty_iff]
  cases r.diagnostics.isEmpty <;> decide

/-- Every entry of the table is listed in one context. -/
theorem symbolCount_ofSession (h : s.Consistent) : (ofSession s).symbolCount = s.table.size := by
  rw [SymbolTable.size, h.entries]
  rfl

theorem fields?_json (r : LayoutReport) : r.json.fields? ["status", "summary"] =
    some [some (.text r.status), some (.record [("contexts", .int r.contextCount),
      ("symbols", .int r.symbolCount), ("errors", .int r.errorCount)])] := by
  rfl

theorem wellFormed_entryJson (e : SymbolEntry) : (entryJson e).WellFormed :=
  .record (List.forall_mem_cons.2 ⟨.text _, List.forall_mem_cons.2 ⟨.int _,
    List.forall_mem_singleton.2 (.int _)⟩⟩)

theorem wellFormed_contextJson (l : Layout) : (contextJson l).WellFormed := by
  refine .record (List.forall_mem_cons.2 ⟨.text _, List.forall_mem_cons.2 ⟨.int _,
    List.forall_mem_singleton.2 (.array ?_)⟩⟩)
  exact List.forall_mem_map.2 fun e _ => wellFormed_entryJson e

theorem wellFormed_json (r : LayoutReport) : r.json.WellFormed := by
  have hcounts : (Json.record [("contexts", .int r.contextCount), ("symbols", .int r.symbolCount),
      ("errors", .int r.errorCount)]).WellFormed :=
    .record (List.forall_mem_cons.2 ⟨.int _, List.forall_mem_cons.2 ⟨.int _,
      List.forall_mem_singleton.2 (.int _)⟩⟩)
  refine .record (List.forall_mem_cons.2 ⟨.text _, List.forall_mem_cons.2 ⟨.array ?_,
    List.forall_mem_cons.2 ⟨.array ?_, List.forall_mem_singleton.2 hcounts⟩⟩⟩)
  · exact List.forall_mem_map.2 fun l _ => wellFormed_contextJson l
  · exact List.forall_mem_map.2 fun d _ => d.wellFormed_toJson

end LayoutReport

namespace Command

variable {files : String → Option String} {path text : String} {file : LayoutFile}

theorem layoutFile_eq_ok (hpath : files path = some text) (h : LayoutFile.read text = .ok file) :
    layoutFile files path = .ok file := by
  unfold layoutFile fileText
  rw [hpath]
  show (LayoutFile.read text).mapError _ = _
  rw [h]
  rfl

/-- What is printed as JSON holds the value. -/
theorem parse?_form {value : Json} (h : value.WellFormed) (text : String) :
    Json.parse? (form true text value) = some value := by
  have hbreak : ∀ c ∈ "\n".toList, Json.Reader.isSpace c = true := by simp [Json.Reader.isSpace]
  exact Json.parse?_render_append h hbreak

/-- The command prints the report in any case, and fails if there are diagnostics and they are
denied. -/
theorem run_resolve (hpath : files path = some text) (h : LayoutFile.read text = .ok file)
    (session : Session) (json deny : Bool) :
    let report := LayoutReport.ofSession (session.resolveAll file)
    ∃ outcome, (resolve path json deny).run files session = .ok outcome ∧
      outcome.output = form json report.text report.json ∧
      (outcome.status ≠ 0 ↔ deny = true ∧ 0 < report.errorCount) ∧
      (outcome.complaint ≠ none ↔ deny = true ∧ 0 < report.errorCount) := by
  intro report
  have hdenied : (deny && report.errorCount != 0) = true ↔ deny = true ∧ 0 < report.errorCount := by
    rw [Bool.and_eq_true, bne_iff_ne, Nat.pos_iff_ne_zero]
  rw [run, layoutFile_eq_ok hpath h]
  show ∃ outcome, (if (deny && report.errorCount != 0) = true then _ else _) = Except.ok outcome ∧ _
  by_cases hd : (deny && report.errorCount != 0) = true
  · rw [if_pos hd]
    have hfails : (1 : UInt8) ≠ 0 := by decide
    exact ⟨_, rfl, rfl, iff_of_true hfails (hdenied.1 hd),
      iff_of_true (Option.some_ne_none _) (hdenied.1 hd)⟩
  · rw [if_neg hd]
    exact ⟨_, rfl, rfl, iff_of_false (fun hne => hne rfl) (mt hdenied.2 hd),
      iff_of_false (fun hne => hne rfl) (mt hdenied.2 hd)⟩

/-- A file is refused for the first context whose trimmed upper-case name belongs to a context before
it. Of a file that is accepted each context is resolved, new to the session, and keeps its layout at
its place. The report counts the contexts of the file, the entries of the table and the diagnostics
of the session. What is printed is a text that holds the JSON value of the report, or the listing of
layouts and diagnostics with these counts at its end. It does not depend on whether diagnostics are
denied, but the command fails if they are and there are some. -/
theorem resolve_reports (settings : Settings) (hpath : files path = some text) :
    (∀ name, LayoutFile.read text = .error (.duplicateContext name) ↔
      ∃ file pre c post, (Json.parse? text).bind LayoutFile.ofJson? = some file ∧
        file.contexts = pre ++ c :: post ∧ (pre.map ContextSource.key).Nodup ∧
        c.key ∈ pre.map ContextSource.key ∧ c.name = name) ∧
      ∀ file, LayoutFile.read text = .ok file →
        let whole := settings.session.resolveAll file
        let report := LayoutReport.ofSession whole
        -- the layouts
        whole.layouts.map Layout.context =
          file.contexts.map (fun c => normalizeName settings.foldCase c.name) ∧
        (∀ pre c post, file.contexts = pre ++ c :: post →
          let before := settings.session.resolveContexts pre
          before.layout? c.name = none ∧
            whole.layouts[pre.length]? = some (before.resolve c.name c.records).1) ∧
        -- the counts
        report.contextCount = file.contexts.length ∧ report.symbolCount = whole.table.size ∧
        report.errorCount = whole.diagnostics.length ∧
        (report.status = "ok" ↔ whole.diagnostics = []) ∧
        report.json.fields? ["status", "summary"] = some [some (.text report.status),
          some (.record [("contexts", .int file.contexts.length),
            ("symbols", .int whole.table.size), ("errors", .int whole.diagnostics.length)])] ∧
        report.text = String.join (whole.layouts.map LayoutReport.block) ++
          String.join (whole.diagnostics.map fun d => d.render ++ "\n") ++
          s!"{file.contexts.length} context(s), {whole.table.size} symbol(s), " ++
          s!"{whole.diagnostics.length} error(s)\n" ∧
        -- the outcome
        ∀ json deny, ∃ outcome, (resolve path json deny).run files settings.session = .ok outcome ∧
          outcome.output = form json report.text report.json ∧
          (json = true → Json.parse? outcome.output = some report.json) ∧
          (json = false → outcome.output = report.text) ∧
          (outcome.status ≠ 0 ↔ deny = true ∧ 0 < report.errorCount) ∧
          (outcome.complaint ≠ none ↔ deny = true ∧ 0 < report.errorCount) := by
  refine ⟨fun name => LayoutFile.read_eq_duplicateContext_iff, ?_⟩
  intro file hfile whole report
  have hawaits := Session.awaits_contexts settings hfile
  have hlayouts : whole.layouts = settings.session.layoutsOf file.contexts := hawaits.layouts_fresh
  have hcontexts : whole.layouts.map Layout.context =
      file.contexts.map (fun c => normalizeName settings.foldCase c.name) := by
    rw [hlayouts]
    exact hawaits.context_layoutsOf (Session.fresh_owned settings)
  have hcontextCount : report.contextCount = file.contexts.length := by
    have hlength := congrArg List.length hcontexts
    rwa [List.length_map, List.length_map] at hlength
  have hsymbolCount : report.symbolCount = whole.table.size :=
    LayoutReport.symbolCount_ofSession
      ((Session.Reachable.start settings.registers settings.foldCase).resolveContexts _).consistent
  refine ⟨hcontexts, ?_, hcontextCount, hsymbolCount, rfl, LayoutReport.status_eq_ok_iff, ?_, ?_,
    fun json deny => ?_⟩
  · intro pre c post hsplit before
    rw [hsplit] at hawaits
    refine ⟨hawaits.layout?_before, ?_⟩
    rw [hlayouts, hsplit]
    exact Session.getElem?_layoutsOf _ pre c post
  · rw [LayoutReport.fields?_json, hcontextCount, hsymbolCount]
    rfl
  · rw [← hcontextCount, ← hsymbolCount]
    simp only [LayoutReport.text, String.append_assoc]
    rfl
  · obtain ⟨outcome, hrun, houtput, hfails⟩ :=
      run_resolve hpath hfile settings.session json deny
    refine ⟨outcome, hrun, houtput, ?_, ?_, hfails⟩
    · rintro rfl
      rw [houtput]
      exact parse?_form report.wellFormed_json _
    · rintro rfl
      exact houtput

/-- A context whose one label is redefined and one whose `ORG` fails; and a file with two contexts that
differ in case and blanks only, the third and the first. -/
theorem resolve_reports_denied :
    let text := "[[[\"HDR\",[[\"A\",\"DS\",\"F\"],[\"a\",\"EQU\",\"7\"]]],[\" Body\",
      [[\"B\",\"DS\",\"CL(HDR.A)\"],[\"X\",\"ORG\",\"GHOST\"]]]]]"
    let repeated := "[[[\"REC\"],[\"X\"],[\" rec\"],[\"x \"]]]"
    let files : String → Option String :=
      fun path => if path = "layout.json" then some text else some repeated
    let file : LayoutFile := ⟨[⟨"HDR", [⟨some "A", .ds, "F"⟩, ⟨some "a", .equ, "7"⟩]⟩,
      ⟨" Body", [⟨some "B", .ds, "CL(HDR.A)"⟩, ⟨some "X", .org, "GHOST"⟩]⟩]⟩
    let whole := Settings.standard.session.resolveAll file
    let report := LayoutReport.ofSession whole
    LayoutFile.read text = .ok file ∧ whole.layouts.map Layout.context = ["HDR", "BODY"] ∧
      report.symbolCount = whole.table.size ∧ whole.table.size = 3 ∧ report.errorCount = 1 ∧
      report.status ≠ "ok" ∧
      (∃ outcome, (resolve "layout.json" true true).run files Settings.standard.session =
        .ok outcome ∧ outcome.output = form true report.text report.json ∧
          Json.parse? outcome.output = some report.json ∧ outcome.status ≠ 0) ∧
      LayoutFile.read repeated = .error (.duplicateContext " rec") := by
  intro text repeated files file whole report
  have hread : LayoutFile.read text = .ok file := by decide +kernel
  have herrors : report.errorCount = 1 := by decide +kernel
  have hpath : files "layout.json" = some text := rfl
  have hother : files "other.json" = some repeated := rfl
  obtain ⟨-, haccepted⟩ := resolve_reports .standard hpath
  obtain ⟨hcontexts, -, -, hsymbols, -, -, -, -, hrun⟩ := haccepted file hread
  obtain ⟨outcome, houtcome, houtput, hjson, -, hstatus, -⟩ := hrun true true
  obtain ⟨hrepeated, -⟩ := resolve_reports .standard hother
  refine ⟨hread, hcontexts.trans (by decide +kernel), hsymbols, by decide +kernel, herrors,
    by decide +kernel, ⟨outcome, houtcome, houtput, hjson rfl, hstatus.2 ⟨rfl, ?_⟩⟩, ?_⟩
  · show 0 < report.errorCount
    rw [herrors]
    exact Nat.one_pos
  · exact (hrepeated " rec").2 ⟨⟨[⟨"REC", []⟩, ⟨"X", []⟩, ⟨" rec", []⟩, ⟨"x ", []⟩]⟩,
      [⟨"REC", []⟩, ⟨"X", []⟩], ⟨" rec", []⟩, [⟨"x ", []⟩], by decide +kernel, rfl,
      by decide +kernel, by decide +kernel, rfl⟩

end Command
end AsmLayout
