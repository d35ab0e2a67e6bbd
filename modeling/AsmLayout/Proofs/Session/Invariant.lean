import AsmLayout.Proofs.Layout.Entries
import AsmLayout.Proofs.Session.Operations
import Mathlib.Data.List.Nodup

/-!
# The parts of a session agree

A resolution adds the layout of its context to the cache and its name to the order, the labels of the
layout to the table and its diagnostics to those of the session (`Owned.resolve_new`). Main
statement: `Session.after_consistent` (after any operations, the order has the keys of the cache, and
table and diagnostics are what the layouts hold in this order).
-/

namespace AsmLayout.Session

variable {s : Session} {context : String} {layout : Layout}

theorem Owned.context_ne (h : s.Owned) (hnew : s.layout? context = none) :
    ∀ e ∈ s.table.entries, e.context ≠ s.table.normalize context := by
  intro e he hcontext
  -- the key of the entry finds this or an earlier entry, which has an owner
  have hfound : (s.table.entries.find? fun x => x.key == e.key).isSome = true :=
    List.find?_isSome.2 ⟨e, he, beq_self_eq_true e.key⟩
  obtain ⟨x, hx⟩ := Option.isSome_iff_exists.1 hfound
  obtain ⟨layout, hlayout⟩ := h.labels e.key x hx
  unfold layout? at hnew
  rw [← hcontext] at hnew
  exact Option.some_ne_none layout (hlayout.symm.trans hnew)

/-- A context that is new leaves its layout in all parts of the session. -/
theorem Owned.resolve_new (h : s.Owned) (hnew : s.layout? context = none) (records : List Record) :
    let layout := (s.resolve context records).1
    let s' := (s.resolve context records).2
    layout.context = s.table.normalize context ∧
      s'.order = s.order ++ [s.table.normalize context] ∧
      s'.cache = (s.table.normalize context, layout) :: s.cache ∧
      s'.table.entries = s.table.entries ++ layout.symbols ∧
      s'.diagnostics = s.diagnostics ++ layout.diagnostics := by
  rw [resolve_of_new hnew]
  refine ⟨rfl, rfl, rfl, ?_, rfl⟩
  refine (s.firstPass context).run_entries records ?_
  show ∀ e ∈ s.table.entries, e.context ≠ s.table.normalize (s.table.normalize context)
  rw [SymbolTable.normalize_normalize]
  exact h.context_ne hnew

theorem Owned.not_mem_order (h : s.Owned) (hnew : s.layout? context = none) :
    s.table.normalize context ∉ s.order := by
  intro hmem
  obtain ⟨layout, hlayout⟩ := h.order _ hmem
  exact Option.some_ne_none layout (hlayout.symm.trans hnew)

/-- The layout of a new context comes behind the others. -/
theorem Owned.layouts_resolve (h : s.Owned) (hnew : s.layout? context = none)
    (records : List Record) :
    (s.resolve context records).2.layouts = s.layouts ++ [(s.resolve context records).1] := by
  obtain ⟨-, horder, hcache, -, -⟩ := h.resolve_new hnew records
  have hold : (s.order.filterMap fun key =>
      ((s.table.normalize context, (s.resolve context records).1) :: s.cache).lookup key) =
        s.layouts := by
    refine List.filterMap_congr fun key hkey => lookup_cons_of_ne ?_
    rintro rfl
    exact h.not_mem_order hnew hkey
  rw [layouts, horder, hcache, List.filterMap_append, hold]
  simp

/-- The order has each name once, the names in it are the keys of the cache, and the layouts come in
this order. Each is that of its own name, and the table and the diagnostics hold the same as they. -/
structure Consistent (s : Session) : Prop where
  nodup : s.order.Nodup
  keys : (s.cache.map Prod.fst).Nodup
  mem_order : ∀ key, key ∈ s.order ↔ key ∈ s.cache.map Prod.fst
  layouts : s.layouts.map Layout.context = s.order
  context : ∀ key layout, s.cache.lookup key = some layout →
    layout.context = key ∧ s.table.normalize layout.context = layout.context
  entries : s.table.entries = s.layouts.flatMap Layout.symbols
  diagnostics : s.diagnostics = s.layouts.flatMap Layout.diagnostics

theorem start_consistent (registers : RegisterTable) (foldCase : Bool) :
    (start registers foldCase).Consistent where
  nodup := List.nodup_nil
  keys := List.nodup_nil
  mem_order _ := Iff.rfl
  layouts := rfl
  context _ _ h := by cases h
  entries := rfl
  diagnostics := rfl

/-- A resolution keeps the parts of a session in agreement. -/
theorem Consistent.resolve (h : s.Consistent) (howned : s.Owned) (context : String)
    (records : List Record) : (s.resolve context records).2.Consistent := by
  cases hc : s.layout? context with
  | some layout => rw [resolve_of_cached hc]; exact h
  | none =>
    obtain ⟨hname, horder, hcache, hentries, hdiagnostics⟩ := howned.resolve_new hc records
    have hlayouts := howned.layouts_resolve hc records
    have hnew := howned.not_mem_order hc
    have hkey : s.table.normalize context ∉ s.cache.map Prod.fst := mt (h.mem_order _).2 hnew
    refine ⟨?_, ?_, fun key => ?_, ?_, fun key layout hlookup => ?_, ?_, ?_⟩
    · rw [horder, ← List.concat_eq_append]
      exact List.Nodup.concat hnew h.nodup
    · rw [hcache]
      exact List.nodup_cons.2 ⟨hkey, h.keys⟩
    · rw [horder, hcache, List.mem_append, List.mem_singleton, h.mem_order, List.map_cons,
        List.mem_cons]
      exact or_comm
    · rw [hlayouts, horder, List.map_append, h.layouts, List.map_singleton, hname]
    · rw [SymbolTable.normalize_congr (resolve_sameSettings s context records).foldCase]
      by_cases hcontext : key = s.table.normalize context
      · -- the layout of the context itself
        rw [hcache, hcontext, List.lookup_cons_self] at hlookup
        cases hlookup
        exact ⟨hname.trans hcontext.symm, by rw [hname, SymbolTable.normalize_normalize]⟩
      · rw [hcache, lookup_cons_of_ne hcontext] at hlookup
        exact h.context key layout hlookup
    · rw [hentries, hlayouts, List.flatMap_append, h.entries, List.flatMap_singleton]
    · rw [hdiagnostics, hlayouts, List.flatMap_append, h.diagnostics, List.flatMap_singleton]

theorem Reachable.consistent (h : s.Reachable) : s.Consistent := by
  induction h with
  | start registers foldCase => exact start_consistent registers foldCase
  | resolve hs context records ih => exact ih.resolve hs.owned context records

/-- Under any settings and after any operations, the parts of a session agree. -/
theorem after_consistent (settings : Settings) (operations : List Operation) :
    (settings.session.after operations).Consistent :=
  ((Reachable.start settings.registers settings.foldCase).after operations).consistent

end AsmLayout.Session
