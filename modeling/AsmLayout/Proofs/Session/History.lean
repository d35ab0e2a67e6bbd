import AsmLayout.LayoutFile
import AsmLayout.Proofs.Layout.Growth

/-!
# The history of a session

The sessions that resolutions lead to. Every label in the table of such a session belongs to a
resolved context (`Reachable.owned`), so a context that is not resolved yet has none of its labels
there (`Owned.fresh`) and a resolution only adds to the table (`Owned.resolve_extends`).
-/

namespace AsmLayout.Session

variable {s : Session} {context : String} {records : List Record} {layout : Layout}

/-- The sessions that some resolutions, one after another, lead to. -/
inductive Reachable : Session → Prop
  | start (registers : RegisterTable) (foldCase : Bool) : Reachable (start registers foldCase)
  | resolve {s : Session} (h : Reachable s) (context : String) (records : List Record) :
      Reachable (s.resolve context records).2

/-- The pass with which the resolution of a context begins. -/
def firstPass (s : Session) (context : String) : Pass :=
  .start s.registers s.table (s.table.normalize context)

/-- At its beginning a context has nothing set aside. -/
theorem pending_firstPass (s : Session) (context : String) (records : List Record) :
    (s.firstPass context).pending records = records :=
  List.append_nil records

theorem resolve_of_cached (h : s.layout? context = some layout) :
    s.resolve context records = (layout, s) := by
  unfold layout? at h
  unfold resolve
  simp only [h]

theorem resolve_of_new (h : s.layout? context = none) :
    s.resolve context records =
      let p := (s.firstPass context).run records
      let layout : Layout := ⟨s.table.normalize context,
        p.table.entriesIn (s.table.normalize context), p.diagnostics, p.highWater, p.table.foldCase⟩
      (layout, { s with
        table := p.table
        diagnostics := s.diagnostics ++ p.diagnostics
        order := s.order ++ [s.table.normalize context]
        cache := (s.table.normalize context, layout) :: s.cache }) := by
  unfold layout? at h
  unfold resolve
  simp only [h]
  rfl

theorem table_resolve (h : s.layout? context = none) :
    (s.resolve context records).2.table = ((s.firstPass context).run records).table := by
  rw [resolve_of_new h]

theorem firstPass_sameOutside (s : Session) (context : String) (records : List Record) :
    s.table.SameOutside context ((s.firstPass context).run records).table := by
  have h := (s.firstPass context).run_sameOutside records
  refine ⟨h.foldCase, fun key hne => h.get? key ?_⟩
  show key.1 ≠ s.table.normalize (s.table.normalize context)
  rwa [SymbolTable.normalize_normalize]

/-- Every label belongs to a context that has a layout, and every name in the order is that of
one. -/
structure Owned (s : Session) : Prop where
  labels : ∀ key e, s.table.get? key = some e → ∃ layout, s.cache.lookup key.1 = some layout
  order : ∀ key ∈ s.order, ∃ layout, s.cache.lookup key = some layout

section Cache

variable {key key' : String} {cache : List (String × Layout)}

/-- A layout that is put before the others hides none that is there under another name. -/
theorem lookup_cons_of_ne (h : key ≠ key') :
    ((key', layout) :: cache).lookup key = cache.lookup key := by
  rw [List.lookup_cons, beq_eq_false_iff_ne.2 h]

theorem exists_lookup_cons (h : key ≠ key' → ∃ known, cache.lookup key = some known) :
    ∃ known, ((key', layout) :: cache).lookup key = some known := by
  by_cases heq : key = key'
  · exact ⟨layout, by rw [heq, List.lookup_cons_self]⟩
  · rw [lookup_cons_of_ne heq]
    exact h heq

end Cache

theorem Owned.resolve (h : s.Owned) (context : String) (records : List Record) :
    (s.resolve context records).2.Owned := by
  cases hc : s.layout? context with
  | some layout => rw [resolve_of_cached hc]; exact h
  | none =>
    rw [resolve_of_new hc]
    refine ⟨fun key e he => exists_lookup_cons fun hne => ?_,
      fun key hkey => exists_lookup_cons fun hne => ?_⟩
    · have hold := (s.firstPass_sameOutside context records).get? key hne
      exact h.labels key e (hold.symm.trans he)
    · have hold := (List.mem_append.1 hkey).resolve_right (mt List.mem_singleton.1 hne)
      exact h.order key hold

theorem Reachable.owned (h : Reachable s) : s.Owned := by
  induction h with
  | start registers foldCase =>
    refine ⟨fun key e he => ?_, nofun⟩
    cases he
  | resolve h context records ih => exact ih.resolve context records

theorem Owned.fresh (h : s.Owned) (hc : s.layout? context = none) (label : String) :
    s.table.get? (s.table.keyOf context label) = none := by
  cases he : s.table.get? (s.table.keyOf context label) with
  | none => rfl
  | some e =>
    obtain ⟨layout, hlayout⟩ := h.labels _ e he
    unfold layout? at hc
    rw [show s.table.normalize context = (s.table.keyOf context label).1 from rfl, hlayout] at hc
    cases hc

/-- The labels of a context that is not resolved yet may all be defined, if they differ. -/
theorem Owned.admits (h : s.Owned) (hc : s.layout? context = none)
    (hnodup : ((records.filterMap Record.label).map s.table.normalize).Nodup) :
    (s.firstPass context).table.Admits (s.firstPass context).context
      ((s.firstPass context).pending records) := by
  refine ⟨?_, fun r _ l _ => ?_⟩
  · show (((records ++ []).filterMap Record.label).map s.table.normalize).Nodup
    rwa [List.append_nil]
  · show s.table.get? (s.table.keyOf (s.table.normalize context) l) = none
    rw [SymbolTable.keyOf_normalize]
    exact h.fresh hc l

/-- A resolution keeps every entry, whatever the labels of its records. -/
theorem Owned.resolve_extends (h : s.Owned) (context : String) (records : List Record) :
    (s.resolve context records).2.table.Extends s.table := by
  cases hc : s.layout? context with
  | some layout => rw [resolve_of_cached hc]; exact .refl _
  | none =>
    rw [table_resolve hc]
    have hsame := s.firstPass_sameOutside context records
    refine ⟨hsame.foldCase, fun key e he => ?_⟩
    rw [hsame.get? key]
    · exact he
    · intro hkey
      obtain ⟨layout, hlayout⟩ := h.labels key e he
      unfold layout? at hc
      rw [← hkey, hlayout] at hc
      cases hc

theorem Owned.resolveContexts_extends (h : s.Owned) (contexts : List ContextSource) :
    (s.resolveContexts contexts).table.Extends s.table := by
  induction contexts generalizing s with
  | nil => exact .refl _
  | cons c contexts ih =>
    exact (ih (h.resolve c.name c.records)).trans (h.resolve_extends c.name c.records)

end AsmLayout.Session
