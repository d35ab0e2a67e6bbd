import AsmLayout.Proofs.Session.Invariant

/-!
# Sessions only grow

Main statement: `Session.resolve_appends`. A resolution adds at the end of the table, of the
diagnostics and of the layouts, and from then on the context answers with the layout that it got.
-/

namespace AsmLayout.Session

variable {s s' : Session} {context name : String} {records : List Record} {layout : Layout}

theorem resolve_fst_of_new (hnew : s.layout? context = none) (records : List Record) :
    (s.resolve context records).2.layout? context = some (s.resolve context records).1 := by
  have hfold := (resolve_sameSettings s context records).foldCase
  unfold layout?
  rw [SymbolTable.normalize_congr hfold, resolve_of_new hnew]
  exact List.lookup_cons_self

/-- After its resolution, new or not, the context has the layout that came out. -/
theorem layout?_resolve (s : Session) (context : String) (records : List Record) :
    (s.resolve context records).2.layout? context = some (s.resolve context records).1 := by
  cases hc : s.layout? context with
  | some layout => rw [resolve_of_cached hc]; exact hc
  | none => exact resolve_fst_of_new hc records

theorem layout?_resolve_of_some (h : s.layout? name = some layout) (context : String)
    (records : List Record) : (s.resolve context records).2.layout? name = some layout := by
  have hfold := (resolve_sameSettings s context records).foldCase
  cases hc : s.layout? context with
  | some known => rw [resolve_of_cached hc]; exact h
  | none =>
    have hne : s.table.normalize name ≠ s.table.normalize context := by
      intro heq
      unfold layout? at h hc
      rw [heq, hc] at h
      cases h
    unfold layout?
    rw [SymbolTable.normalize_congr hfold, resolve_of_new hc]
    exact (lookup_cons_of_ne hne).trans h

theorem layout?_resolve_of_ne (h : s.table.normalize context ≠ s.table.normalize name)
    (records : List Record) : (s.resolve context records).2.layout? name = s.layout? name := by
  have hfold := (resolve_sameSettings s context records).foldCase
  cases hc : s.layout? context with
  | some known => rw [resolve_of_cached hc]
  | none =>
    unfold layout?
    rw [SymbolTable.normalize_congr hfold, resolve_of_new hc]
    exact lookup_cons_of_ne h.symm

theorem layout?_resolveContexts_of_some (h : s.layout? name = some layout)
    (contexts : List ContextSource) : (s.resolveContexts contexts).layout? name = some layout :=
  resolveContexts_preserves (P := fun s => s.layout? name = some layout) contexts h
    fun _ context records hs => layout?_resolve_of_some hs context records

theorem layout?_after (h : s.layout? name = some layout) (operations : List Operation) :
    (s.after operations).layout? name = some layout :=
  after_preserves (P := fun s => s.layout? name = some layout) operations h
    fun _ context records hs => layout?_resolve_of_some hs context records

theorem layout?_congr (h : s.table.normalize name = s.table.normalize context) :
    s.layout? name = s.layout? context := by
  unfold layout?
  rw [h]

theorem resolve_congr (h : s.table.normalize name = s.table.normalize context) :
    s.resolve name records = s.resolve context records := by
  unfold resolve
  rw [h]

/-- A context answers with the layout of its first resolution, whatever happens in between. -/
theorem resolve_after (s : Session) (context : String) (records : List Record)
    (later : List Operation) (hname : s.table.normalize name = s.table.normalize context)
    (records' : List Record) :
    ((s.resolve context records).2.after later).resolve name records' =
      ((s.resolve context records).1, (s.resolve context records).2.after later) := by
  have hsettings := (resolve_sameSettings s context records).trans (after_sameSettings _ later)
  refine resolve_of_cached ?_
  rw [← layout?_after (layout?_resolve s context records) later]
  refine layout?_congr ?_
  rw [SymbolTable.normalize_congr hsettings.foldCase, hname]

/-- The session has all that `s` has, in front of what is new. -/
structure Continues (s' s : Session) : Prop where
  entries : s.table.entries <+: s'.table.entries
  diagnostics : s.diagnostics <+: s'.diagnostics
  layouts : s.layouts <+: s'.layouts

theorem Continues.refl (s : Session) : s.Continues s :=
  ⟨List.prefix_rfl, List.prefix_rfl, List.prefix_rfl⟩

theorem Owned.resolve_continues (h : s.Owned) (context : String) (records : List Record) :
    (s.resolve context records).2.Continues s := by
  cases hc : s.layout? context with
  | some layout => rw [resolve_of_cached hc]; exact .refl s
  | none =>
    obtain ⟨-, -, -, hentries, hdiagnostics⟩ := h.resolve_new hc records
    exact ⟨⟨_, hentries.symm⟩, ⟨_, hdiagnostics.symm⟩, ⟨_, (h.layouts_resolve hc records).symm⟩⟩

/-- A resolution puts what it adds behind all that is there, so that every entry and every layout is
found as before. A context that is resolved already is not resolved again: then, and ever after, it
has the layout of its first resolution, and asking for it changes nothing. -/
theorem resolve_appends (hs : s.Reachable) (context : String) (records : List Record) :
    let layout := (s.resolve context records).1
    let s' := (s.resolve context records).2
    s.table.entries <+: s'.table.entries ∧ s.diagnostics <+: s'.diagnostics ∧
      s.layouts <+: s'.layouts ∧
      (∀ other label e, s.table.lookup? other label = some e →
        s'.table.lookup? other label = some e) ∧
      (∀ other known, s.layout? other = some known → s'.layout? other = some known) ∧
      (∀ known, s.layout? context = some known → layout = known ∧ s' = s) ∧
      ∀ (later : List Operation) (name : String) (records' : List Record),
        s.table.normalize name = s.table.normalize context →
          (s'.after later).resolve name records' = (layout, s'.after later) := by
  intro layout s'
  have hcontinues := hs.owned.resolve_continues context records
  refine ⟨hcontinues.entries, hcontinues.diagnostics, hcontinues.layouts, ?_, ?_, ?_, ?_⟩
  · intro other label e he
    exact (hs.owned.resolve_extends context records).lookup? he
  · intro other known hknown
    exact layout?_resolve_of_some hknown context records
  · intro known hknown
    have hsame : s.resolve context records = (known, s) := resolve_of_cached hknown
    exact ⟨congrArg Prod.fst hsame, congrArg Prod.snd hsame⟩
  · intro later name records' hname
    exact resolve_after s context records later hname records'

/-- A second context behind the first, and the first one asked for again in other letters. -/
theorem resolve_appends_second :
    let s := ((start .standard true).resolve "A" [⟨some "X", .ds, "F"⟩]).2
    let s' := (s.resolve "B" [⟨some "Y", .equ, "A.X+1"⟩, ⟨some "Z", .ds, "Q"⟩]).2
    s.table.entries <+: s'.table.entries ∧ s.diagnostics <+: s'.diagnostics ∧
      s.layouts <+: s'.layouts ∧
      (s'.after [.resolve "C" [⟨some "X", .ds, "H"⟩]]).resolve " b " [] =
        ((s.resolve "B" [⟨some "Y", .equ, "A.X+1"⟩, ⟨some "Z", .ds, "Q"⟩]).1,
          s'.after [.resolve "C" [⟨some "X", .ds, "H"⟩]]) := by
  intro s s'
  have hs : s.Reachable := .resolve (.start .standard true) "A" [⟨some "X", .ds, "F"⟩]
  obtain ⟨hentries, hdiagnostics, hlayouts, -, -, -, hagain⟩ :=
    resolve_appends hs "B" [⟨some "Y", .equ, "A.X+1"⟩, ⟨some "Z", .ds, "Q"⟩]
  exact ⟨hentries, hdiagnostics, hlayouts,
    hagain [.resolve "C" [⟨some "X", .ds, "H"⟩]] " b " [] (by decide +kernel)⟩

end AsmLayout.Session
