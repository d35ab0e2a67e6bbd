import AsmLayout.Proofs.LayoutFile.Accepted
import AsmLayout.Proofs.Session.AppendOnly

/-!
# Many contexts in turn

A session that awaits some contexts, all new to it and different in their names, resolves every one
of them. Main statements: `Awaits.layouts_resolveContexts` (each gets a layout of its own, in their
order) and `Owned.resolveContexts_continues` (whatever the contexts, what is there stays). A fresh
session awaits the contexts of every accepted file (`awaits_contexts`).
-/

namespace AsmLayout.Session

variable {s s' s'' : Session} {c : ContextSource} {contexts pre post : List ContextSource}
  {name : String}

theorem resolveContexts_cons (s : Session) (c : ContextSource) (contexts : List ContextSource) :
    s.resolveContexts (c :: contexts) = (s.resolve c.name c.records).2.resolveContexts contexts :=
  rfl

theorem resolveContexts_append (s : Session) (pre post : List ContextSource) :
    s.resolveContexts (pre ++ post) = (s.resolveContexts pre).resolveContexts post :=
  List.foldl_append

theorem Reachable.resolveContexts (h : s.Reachable) (contexts : List ContextSource) :
    (s.resolveContexts contexts).Reachable :=
  resolveContexts_preserves contexts h fun _ context records hs => hs.resolve context records

theorem resolveContexts_sameSettings (s : Session) (contexts : List ContextSource) :
    s.SameSettings (s.resolveContexts contexts) :=
  resolveContexts_preserves contexts (.refl s) fun s' context records h =>
    h.trans (resolve_sameSettings s' context records)

theorem normalize_resolveContexts (s : Session) (contexts : List ContextSource) :
    (s.resolveContexts contexts).table.normalize = s.table.normalize :=
  SymbolTable.normalize_congr (resolveContexts_sameSettings s contexts).foldCase

theorem Continues.trans (h' : s''.Continues s') (h : s'.Continues s) : s''.Continues s :=
  ⟨h.entries.trans h'.entries, h.diagnostics.trans h'.diagnostics, h.layouts.trans h'.layouts⟩

theorem Owned.resolveContexts_continues (h : s.Owned) (contexts : List ContextSource) :
    (s.resolveContexts contexts).Continues s := by
  induction contexts generalizing s with
  | nil => exact .refl s
  | cons c contexts ih =>
    exact (ih (h.resolve c.name c.records)).trans (h.resolve_continues c.name c.records)

theorem layout?_resolveContexts_of_ne
    (h : ∀ c ∈ contexts, s.table.normalize c.name ≠ s.table.normalize name) :
    (s.resolveContexts contexts).layout? name = s.layout? name := by
  induction contexts generalizing s with
  | nil => rfl
  | cons c contexts ih =>
    have hsettings := resolve_sameSettings s c.name c.records
    rw [resolveContexts_cons, ih, layout?_resolve_of_ne (h c (by simp))]
    rw [SymbolTable.normalize_congr hsettings.foldCase]
    exact fun d hd => h d (by simp [hd])

/-- A context gets its layout when it is resolved, and keeps it. -/
theorem layout?_resolveContexts_split (s : Session) (pre post : List ContextSource)
    (h : s.table.normalize c.name = s.table.normalize name) :
    (s.resolveContexts (pre ++ c :: post)).layout? name =
      some ((s.resolveContexts pre).resolve c.name c.records).1 := by
  rw [resolveContexts_append, resolveContexts_cons]
  refine layout?_resolveContexts_of_some ?_ post
  rw [← layout?_resolve (s.resolveContexts pre) c.name c.records]
  refine layout?_congr ?_
  rw [SymbolTable.normalize_congr (resolve_sameSettings _ _ _).foldCase,
    normalize_resolveContexts, h]

/-- The contexts are new to the session and differ in their names. -/
structure Awaits (s : Session) (contexts : List ContextSource) : Prop where
  nodup : (contexts.map fun c => s.table.normalize c.name).Nodup
  new : ∀ c ∈ contexts, s.layout? c.name = none

/-- The layouts that contexts get, each resolved after those in front of it. -/
def layoutsOf (s : Session) : List ContextSource → List Layout
  | [] => []
  | c :: contexts =>
    (s.resolve c.name c.records).1 :: (s.resolve c.name c.records).2.layoutsOf contexts

theorem Awaits.sublist {contexts' : List ContextSource} (h : s.Awaits contexts)
    (hsub : contexts'.Sublist contexts) : s.Awaits contexts' :=
  ⟨h.nodup.sublist (hsub.map _), fun c hc => h.new c (hsub.subset hc)⟩

theorem Awaits.resolve (h : s.Awaits (c :: contexts)) :
    (s.resolve c.name c.records).2.Awaits contexts := by
  obtain ⟨hc, hnodup⟩ := List.nodup_cons.1 h.nodup
  have hsettings := resolve_sameSettings s c.name c.records
  refine ⟨?_, fun d hd => ?_⟩
  · rwa [SymbolTable.normalize_congr hsettings.foldCase]
  · rw [layout?_resolve_of_ne, h.new d (by simp [hd])]
    exact fun heq => hc (List.mem_map.2 ⟨d, hd, heq.symm⟩)

theorem Awaits.layouts_resolveContexts (hs : s.Owned) (h : s.Awaits contexts) :
    (s.resolveContexts contexts).layouts = s.layouts ++ s.layoutsOf contexts := by
  induction contexts generalizing s with
  | nil => exact (List.append_nil _).symm
  | cons c contexts ih =>
    rw [resolveContexts_cons, ih (hs.resolve c.name c.records) h.resolve,
      hs.layouts_resolve (h.new c (by simp)), layoutsOf, List.append_assoc, List.singleton_append]

/-- The layouts bear the normalized names of the contexts. -/
theorem Awaits.context_layoutsOf (hs : s.Owned) (h : s.Awaits contexts) :
    (s.layoutsOf contexts).map Layout.context = contexts.map fun c => s.table.normalize c.name := by
  induction contexts generalizing s with
  | nil => rfl
  | cons c contexts ih =>
    obtain ⟨hcontext, -⟩ := hs.resolve_new (h.new c (by simp)) c.records
    rw [layoutsOf, List.map_cons, List.map_cons, ih (hs.resolve c.name c.records) h.resolve,
      hcontext, SymbolTable.normalize_congr (resolve_sameSettings s c.name c.records).foldCase]

theorem getElem?_layoutsOf (s : Session) (pre : List ContextSource) (c : ContextSource)
    (post : List ContextSource) : (s.layoutsOf (pre ++ c :: post))[pre.length]? =
      some ((s.resolveContexts pre).resolve c.name c.records).1 := by
  induction pre generalizing s with
  | nil => rfl
  | cons d pre ih => exact ih _

theorem Awaits.layout?_before (h : s.Awaits (pre ++ c :: post)) :
    (s.resolveContexts pre).layout? c.name = none := by
  rw [layout?_resolveContexts_of_ne, h.new c (by simp)]
  have hnodup := h.nodup
  rw [List.map_append, List.map_cons, List.nodup_append] at hnodup
  exact fun d hd => hnodup.2.2 _ (List.mem_map_of_mem hd) _ List.mem_cons_self

theorem fresh_owned (settings : Settings) : settings.session.Owned :=
  (Reachable.start settings.registers settings.foldCase).owned

theorem awaits_contexts {text : String} {file : LayoutFile} (settings : Settings)
    (h : LayoutFile.read text = .ok file) : settings.session.Awaits file.contexts :=
  ⟨LayoutFile.nodup_normalizeName h settings.foldCase, fun _ _ => rfl⟩

/-- A fresh session gets a layout for each of the contexts, and has nothing else. -/
theorem Awaits.layouts_fresh {settings : Settings} (h : settings.session.Awaits contexts) :
    (settings.session.resolveContexts contexts).layouts = settings.session.layoutsOf contexts :=
  h.layouts_resolveContexts (fresh_owned settings)

end AsmLayout.Session
