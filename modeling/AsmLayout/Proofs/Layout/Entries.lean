import AsmLayout.Proofs.Layout.Growth

/-!
# Where a pass puts its entries

A definition replaces the entry under its key where it stands and comes last otherwise. In a context
that has no entries yet, a pass therefore never touches the entries before its own. Main statement:
`Pass.run_entries`.
-/

namespace AsmLayout

namespace SymbolTable

variable {t t' : SymbolTable} {base own : List SymbolEntry} {context : String}
  {label : Option String}

/-- The entries are those of `base`, then entries of the context. -/
def Begins (t : SymbolTable) (base : List SymbolEntry) (context : String) : Prop :=
  ∃ own, t.entries = base ++ own ∧ ∀ e ∈ own, e.context = context

theorem placed_append {e : SymbolEntry} (h : ∀ x ∈ base, x.context ≠ e.context) :
    placed (base ++ own) e = base ++ placed own e := by
  induction base with
  | nil => rfl
  | cons x base ih =>
    have hx : x.key ≠ e.key := fun hkey => h x (by simp) (Prod.mk.injEq .. ▸ hkey).1
    rw [List.cons_append, placed_cons, if_neg hx, ih fun y hy => h y (by simp [hy])]
    rfl

theorem mem_placed {entries : List SymbolEntry} {e x : SymbolEntry} (h : x ∈ placed entries e) :
    x = e ∨ x ∈ entries := by
  induction entries with
  | nil => exact .inl (List.mem_singleton.1 h)
  | cons y entries ih =>
    rw [placed_cons] at h
    split at h
    · rcases List.mem_cons.1 h with rfl | h
      · exact .inl rfl
      · exact .inr (List.mem_cons_of_mem y h)
    · rcases List.mem_cons.1 h with rfl | h
      · exact .inr (List.mem_cons_self ..)
      · exact (ih h).imp_right (List.mem_cons_of_mem y)

/-- A definition in a context leaves alone what stands before the entries of the context. -/
theorem Begins.writes (h : t.Begins base (t.normalize context))
    (hbase : ∀ e ∈ base, e.context ≠ t.normalize context) (hw : t.Writes context label t') :
    t'.Begins base (t.normalize context) := by
  rcases hw with rfl | ⟨l, d, n, -, rfl⟩
  · exact h
  obtain ⟨own, hentries, hown⟩ := h
  refine ⟨placed own (t.made context l d n), ?_, fun e he => ?_⟩
  · rw [define_eq]
    dsimp only
    rw [hentries]
    exact placed_append hbase
  · rcases mem_placed he with rfl | he
    · rfl
    · exact hown e he

theorem Begins.entriesIn (h : t.Begins base (t.normalize context))
    (hbase : ∀ e ∈ base, e.context ≠ t.normalize context) :
    t.entries = base ++ t.entriesIn context := by
  obtain ⟨own, hentries, hown⟩ := h
  have hnone : (base.filter fun e => e.context == t.normalize context) = [] :=
    List.filter_eq_nil_iff.2 fun e he => by simpa using hbase e he
  have hall : (own.filter fun e => e.context == t.normalize context) = own :=
    List.filter_eq_self.2 fun e he => by simpa using hown e he
  rw [SymbolTable.entriesIn, hentries, List.filter_append, hnone, hall, List.nil_append]

end SymbolTable

/-- In a context without entries, a run puts its entries behind all that are there. -/
theorem Pass.run_entries {p : Pass} (rs : List Record)
    (hfresh : ∀ e ∈ p.table.entries, e.context ≠ p.table.normalize p.context) :
    (p.run rs).table.entries = p.table.entries ++ (p.run rs).table.entriesIn p.context := by
  -- the spelling of names goes into the invariant, since a definition normalizes its own context
  have hbegins : (p.run rs).table.foldCase = p.table.foldCase ∧
      (p.run rs).table.Begins p.table.entries (p.table.normalize p.context) := by
    refine run_preserves (P := fun t => t.foldCase = p.table.foldCase ∧
      t.Begins p.table.entries (p.table.normalize p.context)) rs ⟨rfl, [], by simp, by simp⟩ ?_
    intro t label t' ⟨hfold, h⟩ hw
    rw [← SymbolTable.normalize_congr hfold] at h hfresh ⊢
    exact ⟨hw.sameOutside.foldCase.trans hfold, h.writes hfresh hw⟩
  obtain ⟨hfold, h⟩ := hbegins
  rw [← SymbolTable.normalize_congr hfold] at h hfresh
  exact h.entriesIn hfresh

end AsmLayout
