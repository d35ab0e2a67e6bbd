import AsmLayout.Proofs.Session.Contexts

/-!
# Stopping at a context

A session that resolves a file up to one of its contexts has what the whole file begins with. Main
statement: `Session.resolveThrough_continues`.
-/

namespace AsmLayout

namespace LayoutFile

variable {file : LayoutFile} {text name : String} {c : ContextSource} {k : Nat}

/-- In an accepted file a context stands in one place. -/
theorem findIdx?_eq_of_context? (h : read text = .ok file) (hc : file.context? name = some c)
    (hk : file.contexts[k]? = some c) : file.contexts.findIdx? (·.isNamed name) = some k := by
  have hnodup : file.contexts.Nodup := (nodup_normalizeName h true).of_map _
  obtain ⟨i, hi, hget⟩ : ∃ i, file.contexts.findIdx? (·.isNamed name) = some i ∧
      file.contexts[i]? = some c := by
    unfold context? at hc
    rw [List.find?_eq_bind_findIdx?_getElem?, Option.bind_eq_some_iff] at hc
    exact hc
  have hlt : k < file.contexts.length := (List.getElem?_eq_some_iff.1 hk).1
  rw [hi, (List.getElem?_inj hlt hnodup).1 (hk.trans hget.symm)]

end LayoutFile

namespace Session

variable {s s' : Session} {file : LayoutFile} {text name : String} {c : ContextSource} {k : Nat}

/-- What has a value, or fails for another reason than a missing label, stays so when more is
resolved. -/
theorem evaluate_extends {context operand : String} {counter : Int64}
    (h : s'.table.Extends s.table)
    (hdefined : ∀ e, s.evaluate context operand counter = .error e → e.isForwardReference = false) :
    s'.evaluate context operand counter = s.evaluate context operand counter := by
  have hagree : AgreeUnless EvalError.IsUndefined (s.evaluate context operand counter)
      (s'.evaluate context operand counter) :=
    Expr.evaluate_extends (fun _ => rfl) (h.symbolsFrom context)
  refine hagree.resolve_right ?_
  rintro ⟨e, he, hundefined⟩
  exact Bool.eq_false_iff.1 (hdefined e he) hundefined

theorem resolveThrough_eq (h : LayoutFile.read text = .ok file) (hc : file.context? name = some c)
    (hk : file.contexts[k]? = some c) (s : Session) :
    s.resolveThrough file name = (true, s.resolveContexts (file.contexts.take (k + 1))) := by
  unfold resolveThrough
  rw [LayoutFile.findIdx?_eq_of_context? h hc hk]

/-- Take the context at place `k` of an accepted file. A fresh session that stops there has resolved
the contexts up to it, each of them once, and has nothing but what it would begin with after the
whole file. What an expression comes to there, unless it names a missing label, it comes to after
the whole file too. -/
theorem resolveThrough_continues (settings : Settings) (h : LayoutFile.read text = .ok file)
    (hc : file.context? name = some c) (hk : file.contexts[k]? = some c) :
    let stopped := settings.session.resolveThrough file name
    let s := stopped.2
    let whole := settings.session.resolveAll file
    stopped.1 = true ∧
      s.layouts <+: whole.layouts ∧ s.diagnostics <+: whole.diagnostics ∧
      s.table.entries <+: whole.table.entries ∧
      s.layouts.map Layout.context = (file.contexts.take (k + 1)).map
        (fun c => normalizeName settings.foldCase c.name) ∧
      ∀ context operand counter,
        (∀ e, s.evaluate context operand counter = .error e → e.isForwardReference = false) →
          whole.evaluate context operand counter = s.evaluate context operand counter := by
  intro stopped s whole
  have hstopped : stopped = (true, settings.session.resolveContexts (file.contexts.take (k + 1))) :=
    resolveThrough_eq h hc hk settings.session
  have hs : s = settings.session.resolveContexts (file.contexts.take (k + 1)) :=
    congrArg Prod.snd hstopped
  -- the whole file is the rest of it after `s`
  have hwhole : whole = s.resolveContexts (file.contexts.drop (k + 1)) := by
    rw [hs, ← resolveContexts_append, List.take_append_drop]
    rfl
  have howned : s.Owned := by
    rw [hs]
    exact ((Reachable.start settings.registers settings.foldCase).resolveContexts _).owned
  have hcontinues : whole.Continues s := by
    rw [hwhole]
    exact howned.resolveContexts_continues _
  refine ⟨congrArg Prod.fst hstopped, hcontinues.layouts, hcontinues.diagnostics,
    hcontinues.entries, ?_, ?_⟩
  · have hawaits := (awaits_contexts settings h).sublist (List.take_sublist (k + 1) file.contexts)
    rw [hs, hawaits.layouts_fresh]
    exact hawaits.context_layoutsOf (fresh_owned settings)
  · intro context operand counter hdefined
    refine evaluate_extends ?_ hdefined
    rw [hwhole]
    exact howned.resolveContexts_extends _

/-- The second of three contexts, asked for in other letters. It sees the first one; the label that
the third one would define is missing. -/
theorem resolveThrough_continues_second :
    let file : LayoutFile := ⟨[⟨"HDR", [⟨some "ID", .ds, "CL12"⟩]⟩,
      ⟨" Body", [⟨some "COPY", .ds, "CL(L'HDR.ID)"⟩, ⟨none, .org, "TAIL.END"⟩]⟩,
      ⟨"TAIL", [⟨some "END", .equ, "BODY.COPY+5"⟩]⟩]⟩
    let stopped := Settings.standard.session.resolveThrough file "BODY "
    let whole := Settings.standard.session.resolveAll file
    stopped.1 = true ∧ stopped.2.layouts.map Layout.context = ["HDR", "BODY"] ∧
      stopped.2.layouts <+: whole.layouts ∧ stopped.2.diagnostics <+: whole.diagnostics ∧
      stopped.2.evaluate "body" "L'COPY/0" 0 = whole.evaluate "body" "L'COPY/0" 0 ∧
      stopped.2.evaluate "body" "TAIL.END" 0 ≠ whole.evaluate "body" "TAIL.END" 0 := by
  intro file stopped whole
  have hread : LayoutFile.read "[[[\"HDR\",[[\"ID\",\"DS\",\"CL12\"]]],[\" Body\",
      [[\"COPY\",\"DS\",\"CL(L'HDR.ID)\"],[null,\"ORG\",\"TAIL.END\"]]],
      [\"TAIL\",[[\"END\",\"EQU\",\"BODY.COPY+5\"]]]]]" = .ok file := by decide +kernel
  have hcontext : file.context? "BODY " = file.contexts[1]? := by decide +kernel
  obtain ⟨hfound, hlayouts, hdiagnostics, -, hcontexts, hevaluate⟩ :=
    resolveThrough_continues .standard hread hcontext (k := 1) rfl
  refine ⟨hfound, hcontexts.trans (by decide +kernel), hlayouts, hdiagnostics, ?_, ?_⟩
  · refine (hevaluate "body" "L'COPY/0" 0 fun e he => ?_).symm
    have hdivision : stopped.2.evaluate "body" "L'COPY/0" 0 =
        .error (.evaluationFailed .divisionByZero) := by decide +kernel
    rw [hdivision] at he
    cases he
    rfl
  · decide +kernel

end Session
end AsmLayout
