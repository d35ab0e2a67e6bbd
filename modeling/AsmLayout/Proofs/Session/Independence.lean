import AsmLayout.Proofs.Expr.Characters
import AsmLayout.Proofs.Layout.Frame
import AsmLayout.Proofs.Session.AppendOnly

/-!
# Contexts do not depend on each other

A record whose operand holds no point looks up labels of its own context only. A context of such
records is therefore resolved as if it were the first one (`Owned.resolve_isolated`). Main
statement: `Session.resolve_independent`.
-/

namespace AsmLayout

theorem SymbolTable.qualified?_eq_none {name : String} (h : '.' ∉ name.toList) :
    qualified? name = none := by
  have hdrop : name.toList.dropWhile (· != '.') = [] := by
    rw [List.dropWhile_eq_nil_iff]
    intro c hc
    exact bne_iff_ne.2 fun heq => h (heq ▸ hc)
  unfold qualified?
  rw [hdrop]

theorem SymbolTable.target_of_notMem {t : SymbolTable} {scope name : String}
    (h : '.' ∉ name.toList) : t.target scope name = t.keyOf scope name := by
  unfold target
  rw [qualified?_eq_none h]

theorem Record.subset_of_mem_references {r : Record} {name : String} (h : name ∈ r.references) :
    name.toList ⊆ r.operand.toList := by
  unfold references at h
  split at h
  · exact StorageOperand.subset_of_mem_references h
  · exact StorageOperand.subset_of_mem_references h
  · exact Expr.subset_of_mem_references h
  · exact Expr.subset_of_mem_references h
  · cases h

/-- A record whose operand holds no point needs labels of its own context only. -/
theorem Record.within_context {r : Record} (h : '.' ∉ r.operand.toList) (t : SymbolTable)
    (context : String) : r.Within t context fun key => key.1 == t.normalize context := by
  refine ⟨fun l _ => beq_self_eq_true _, fun name hname => ?_⟩
  rw [SymbolTable.target_of_notMem fun hdot => h (r.subset_of_mem_references hname hdot)]
  exact beq_self_eq_true _

namespace Session

variable {s s' : Session} {context : String} {records : List Record}

/-- The session that has resolved nothing, under the settings of `s`. -/
def cleared (s : Session) : Session := start s.registers s.table.foldCase

theorem SameSettings.cleared_eq (h : s.SameSettings s') : s'.cleared = s.cleared := by
  rw [cleared, cleared, h.registers, h.foldCase]

theorem Owned.firstPass_restrict (h : s.Owned) (hnew : s.layout? context = none) :
    (s.firstPass context).restrict (fun key => key.1 == s.table.normalize context) =
      s.cleared.firstPass context := by
  have hnone : s.table.restrict (fun key => key.1 == s.table.normalize context) =
      .empty s.table.foldCase := by
    have hempty : (s.table.entries.filter fun e => e.key.1 == s.table.normalize context) = [] :=
      List.filter_eq_nil_iff.2 fun e he hkey => h.context_ne hnew e he (beq_iff_eq.1 hkey)
    exact congrArg (SymbolTable.mk s.table.foldCase) hempty
  show (⟨s.table.normalize context, s.registers, s.table.restrict _, 0, 0, [], [], []⟩ : Pass) = _
  rw [hnone]
  rfl

theorem entriesIn_restrict (t : SymbolTable) (context : String) :
    (t.restrict fun key => key.1 == t.normalize context).entriesIn context =
      t.entriesIn context := by
  show (List.filter _ (List.filter _ _)) = List.filter _ _
  rw [List.filter_filter]
  refine List.filter_congr fun e _ => ?_
  exact Bool.and_self _

/-- A new context whose operands hold no point is resolved as if nothing had been before. -/
theorem Owned.resolve_isolated (h : s.Owned) (hnew : s.layout? context = none)
    (hplain : ∀ r ∈ records, '.' ∉ r.operand.toList) :
    (s.resolve context records).1 = (s.cleared.resolve context records).1 := by
  set key := s.table.normalize context with hkey
  set p := s.firstPass context with hp
  have hnormal : s.table.normalize key = key := SymbolTable.normalize_normalize ..
  have hwithin : ∀ r ∈ p.pending records, r.Within p.table p.context fun k => k.1 == key := by
    intro r hr
    rw [hp, pending_firstPass] at hr
    have hw := Record.within_context (hplain r hr) s.table key
    rwa [hnormal] at hw
  -- seen through its own labels, which are none yet, the context starts in a cleared session
  have hrun : (s.cleared.firstPass context).run records =
      (p.run records).restrict fun k => k.1 == key := by
    rw [← h.firstPass_restrict hnew, Pass.run_restrict hwithin]
  have hfold : (p.run records).table.foldCase = s.table.foldCase :=
    (s.firstPass_sameOutside context records).foldCase
  have hentries : ((p.run records).table.restrict fun k => k.1 == key).entriesIn key =
      (p.run records).table.entriesIn key := by
    have h := entriesIn_restrict (p.run records).table key
    rwa [SymbolTable.normalize_congr hfold, hnormal] at h
  rw [resolve_of_new hnew, resolve_of_new (s := s.cleared) rfl, hrun]
  show (⟨key, _, _, _, _⟩ : Layout) = ⟨key, _, _, _, _⟩
  rw [Layout.mk.injEq]
  exact ⟨rfl, hentries.symm, rfl, rfl, rfl⟩

/-- In a series of contexts, one that is new gets the layout that it has by itself, if no other of
the same name brings other records. -/
theorem Reachable.layout?_resolveContexts (hs : s.Reachable) {contexts : List ContextSource}
    {c : ContextSource} (hc : c ∈ contexts) (hnew : s.layout? c.name = none)
    (hplain : ∀ r ∈ c.records, '.' ∉ r.operand.toList)
    (hsame : ∀ d ∈ contexts, s.table.normalize d.name = s.table.normalize c.name →
      d.records = c.records) :
    (s.resolveContexts contexts).layout? c.name =
      some (s.cleared.resolve c.name c.records).1 := by
  induction contexts generalizing s with
  | nil => cases hc
  | cons d contexts ih =>
    show ((s.resolve d.name d.records).2.resolveContexts contexts).layout? c.name = _
    have hsettings := resolve_sameSettings s d.name d.records
    by_cases hname : s.table.normalize d.name = s.table.normalize c.name
    · -- the context itself, perhaps in another spelling; later ones do not change its layout
      have hresolve : s.resolve d.name d.records = s.resolve c.name c.records := by
        rw [hsame d (by simp) hname, resolve_congr hname]
      rw [hresolve, ← hs.owned.resolve_isolated hnew hplain]
      exact layout?_resolveContexts_of_some (layout?_resolve s c.name c.records) contexts
    · -- another context, after which this one is still new
      have hmem : c ∈ contexts := by
        rcases List.mem_cons.1 hc with rfl | h
        · exact absurd rfl hname
        · exact h
      rw [← hsettings.cleared_eq]
      refine ih (hs.resolve d.name d.records) hmem ?_ fun x hx heq => hsame x (by simp [hx]) ?_
      · rw [layout?_resolve_of_ne hname, hnew]
      · rwa [SymbolTable.normalize_congr hsettings.foldCase] at heq

/-- Two sessions with the same settings, whatever they have resolved, give a context that is new to
both the same layout, if no operand of its records holds a point. So a set of such contexts gets the
same layouts in whatever order it is resolved. -/
theorem resolve_independent (settings : Settings) (history history' : List Operation) :
    let s := settings.session.after history
    let s' := settings.session.after history'
    (∀ context records, s.layout? context = none → s'.layout? context = none →
      (∀ r ∈ records, '.' ∉ r.operand.toList) →
        (s.resolve context records).1 = (s'.resolve context records).1) ∧
    ∀ contexts contexts' : List ContextSource, (∀ c, c ∈ contexts ↔ c ∈ contexts') →
      (∀ c ∈ contexts, s.layout? c.name = none ∧ s'.layout? c.name = none ∧
        ∀ r ∈ c.records, '.' ∉ r.operand.toList) →
      (∀ c ∈ contexts, ∀ d ∈ contexts,
        s.table.normalize c.name = s.table.normalize d.name → c.records = d.records) →
      ∀ c ∈ contexts, ∃ layout, (s.resolveContexts contexts).layout? c.name = some layout ∧
        (s'.resolveContexts contexts').layout? c.name = some layout := by
  intro s s'
  have hstart : settings.session.Reachable := .start settings.registers settings.foldCase
  have hs : s.Reachable := hstart.after history
  have hs' : s'.Reachable := hstart.after history'
  have hsettings := after_sameSettings settings.session history
  have hsettings' := after_sameSettings settings.session history'
  have hcleared : s'.cleared = s.cleared := hsettings'.cleared_eq.trans hsettings.cleared_eq.symm
  have hnormalize : s'.table.normalize = s.table.normalize :=
    SymbolTable.normalize_congr (hsettings'.foldCase.trans hsettings.foldCase.symm)
  constructor
  · intro context records hnew hnew' hplain
    rw [hs.owned.resolve_isolated hnew hplain, hs'.owned.resolve_isolated hnew' hplain, hcleared]
  · intro contexts contexts' hmem hcontexts hsame c hc
    obtain ⟨hnew, hnew', hplain⟩ := hcontexts c hc
    refine ⟨(s.cleared.resolve c.name c.records).1,
      hs.layout?_resolveContexts hc hnew hplain fun d hd => hsame d hd c hc, ?_⟩
    rw [← hcleared]
    refine hs'.layout?_resolveContexts ((hmem c).1 hc) hnew' hplain fun d hd heq => ?_
    rw [hnormalize] at heq
    exact hsame d ((hmem d).2 hd) c hc heq

/-- A session that has resolved a context with a label `X` and one that has not; `X` stands in the
records of a new context all the same. -/
theorem resolve_independent_history :
    let s := Settings.standard.session.after [.resolve "A" [⟨some "X", .ds, "F"⟩]]
    let s' := Settings.standard.session.after [.evaluate "A" "1" 0]
    let b : ContextSource := ⟨"B", [⟨some "Y", .equ, "Z+1"⟩, ⟨some "Z", .ds, "XL(X)"⟩]⟩
    let c : ContextSource := ⟨"C", [⟨some "X", .ds, "3H"⟩, ⟨none, .org, "X"⟩]⟩
    (s.resolve b.name b.records).1 = (s'.resolve b.name b.records).1 ∧
      ∃ layout, (s.resolveContexts [b, c]).layout? c.name = some layout ∧
        (s'.resolveContexts [c, b]).layout? c.name = some layout := by
  intro s s' b c
  have h := resolve_independent .standard [.resolve "A" [⟨some "X", .ds, "F"⟩]]
    [.evaluate "A" "1" 0]
  refine ⟨h.1 b.name b.records (by decide +kernel) (by decide +kernel) (by decide +kernel), ?_⟩
  exact h.2 [b, c] [c, b] (fun x => by simp [or_comm]) (by decide +kernel) (by decide +kernel) c
    (by simp)

end Session
end AsmLayout
