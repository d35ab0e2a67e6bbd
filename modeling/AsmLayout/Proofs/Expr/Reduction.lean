import AsmLayout.Expr
import AsmLayout.Proofs.Expr.Parser
import Mathlib.Data.List.Forall2
import Mathlib.Data.List.Induction

/-!
# Reduction computes exact values

The reduction of an expression holds the words that the trees of its parser stand for
(`Reduction.Denotes`); it fails where the parser does and where a tree leaves the range of a word.
Main statement: `reduceTerms_exact`.
-/

namespace AsmLayout.Expr

section Gives

variable {r : Except Failure Int64} {P Q : Prop} {a b : Int}

/-- The result is a word with the value `a` where `P` holds, and a failure elsewhere. -/
def Gives (r : Except Failure Int64) (P : Prop) (a : Int) : Prop :=
  P ∧ (∃ w, r = .ok w ∧ w.toInt = a) ∨ ¬ P ∧ ∃ e, r = .error e

theorem Gives.congr (h : Gives r P a) (hPQ : P ↔ Q) : Gives r Q a := by
  unfold Gives
  rw [← hPQ]
  exact h

theorem Gives.bind {f : Int64 → Except Failure Int64} (h : Gives r P a)
    (hf : P → ∀ w, w.toInt = a → Gives (f w) Q b) (hQ : Q → P) : Gives (r >>= f) Q b := by
  rcases h with ⟨hP, w, rfl, hw⟩ | ⟨hP, e, rfl⟩
  · exact hf hP w hw
  · exact .inr ⟨fun hq => hP (hQ hq), e, rfl⟩

theorem word_gives (n : Int) : Gives (word n) (IsWord n) n := by
  unfold word
  by_cases hn : IsWord n
  · have hsome : int64? n = some (Int64.ofInt n) := if_pos hn
    rw [hsome]
    exact .inl ⟨hn, _, rfl, int64?_eq_some_iff.1 hsome⟩
  · have hnone : int64? n = none := if_neg hn
    rw [hnone]
    exact .inr ⟨hn, _, rfl⟩

theorem isWord_toInt (w : Int64) : IsWord w.toInt := by
  have hlo := w.le_toInt
  have hhi := w.toInt_lt
  exact ⟨by omega, by omega⟩

theorem AddSign.apply_gives (sign : AddSign) (a b : Int64) :
    Gives (sign.apply a b) (IsWord (sign.join a.toInt b.toInt)) (sign.join a.toInt b.toInt) := by
  cases sign <;> exact word_gives _

theorem MulSign.apply_gives (sign : MulSign) (a b : Int64) :
    Gives (sign.apply a b)
      ((sign = .divide → b.toInt ≠ 0) ∧ IsWord (sign.join a.toInt b.toInt))
      (sign.join a.toInt b.toInt) := by
  cases sign with
  | times => exact (word_gives _).congr (by simp [MulSign.join])
  | divide =>
    by_cases hb : b.toInt = 0
    · exact .inr ⟨fun h => h.1 rfl hb, .divisionByZero, by simp [MulSign.apply, hb]⟩
    · have happly : MulSign.apply .divide a b = word (a.toInt.tdiv b.toInt) := by
        simp [MulSign.apply, hb]
      rw [happly]
      exact (word_gives _).congr (by simp [MulSign.join, hb])

end Gives

/-- The word and the sign before a product, and the tree and the sign that they stand for. -/
def SumDenotes : Option (Int64 × AddSign) → Option (SumTree × AddSign) → Prop :=
  Option.Rel fun x y => y.1.Exact ∧ y.1.value = x.1.toInt ∧ x.2 = y.2

def ProductDenotes : Option (Int64 × MulSign) → Option (ProductTree × MulSign) → Prop :=
  Option.Rel fun x y => y.1.Exact ∧ y.1.value = x.1.toInt ∧ x.2 = y.2

/-- The arithmetic that waits for a factor, and the derivation that waits for it. -/
structure Level.Denotes (l : Level) (o : Open) : Prop where
  sum : SumDenotes l.sum o.sum
  product : ProductDenotes l.product o.product
  minuses : l.minuses = o.signs.count .minus

theorem Level.Denotes.empty : Level.empty.Denotes .empty := ⟨.none, .none, rfl⟩

variable {n : Int64} {f : FactorTree} {p : ProductTree}

theorem exact_of_signed {signs : List AddSign} (h : (signs.foldr .signed f).Exact) : f.Exact := by
  induction signs with
  | nil => exact h
  | cons sign signs ih => exact ih h.1

theorem negated_gives (signs : List AddSign) (hf : f.Exact) (hv : f.value = n.toInt) :
    Gives (negated (signs.count .minus) n) (signs.foldr .signed f).Exact
      (signs.foldr .signed f).value := by
  -- the innermost sign stands last
  induction signs using List.reverseRecOn generalizing f n with
  | nil => exact .inl ⟨hf, n, rfl, hv.symm⟩
  | append_singleton signs sign ih =>
    rw [List.foldr_append, List.count_append]
    cases sign with
    | plus =>
      have hword : IsWord f.value := hv ▸ isWord_toInt n
      exact ih (f := .signed .plus f) ⟨hf, hword⟩ hv
    | minus =>
      show Gives (word (-n.toInt) >>= negated (signs.count .minus)) _ _
      refine (word_gives _).bind (fun hword w hw => ?_) fun h => ?_
      · refine ih (f := .signed .minus f) ⟨hf, ?_⟩ ?_
        · show IsWord (-f.value)
          rwa [hv]
        · show -f.value = w.toInt
          rw [hv, hw]
      · have hsigned : IsWord (-f.value) := (exact_of_signed h).2
        rwa [hv] at hsigned

theorem multiplied_gives {l : Level} {o : Open} (h : l.Denotes o) (hf : f.Exact)
    (hv : f.value = n.toInt) :
    Gives (Reduction.multiplied l n) (o.multiplied f).Exact (o.multiplied f).value := by
  obtain ⟨lsum, lproduct, minuses⟩ := l
  obtain ⟨osum, oproduct, signs⟩ := o
  obtain ⟨-, hproduct, rfl⟩ := h
  have hneg := negated_gives signs hf hv
  unfold Reduction.multiplied
  dsimp only at hproduct ⊢
  cases hproduct with
  | none => exact hneg.bind (fun hexact w hw => .inl ⟨hexact, w, rfl, hw⟩) id
  | @some x y hxy =>
    obtain ⟨left, sign⟩ := x
    obtain ⟨tree, sign'⟩ := y
    obtain ⟨hexact, hvalue, rfl⟩ := hxy
    refine hneg.bind (fun hright w hw => ?_) fun h => h.2.1
    have happly := sign.apply_gives left w
    dsimp only at hexact hvalue
    rw [← hvalue, hw] at happly
    exact happly.congr ⟨fun h => ⟨hexact, hright, h⟩, fun h => h.2.2⟩

theorem added_gives {sum : Option (Int64 × AddSign)} {osum : Option (SumTree × AddSign)}
    (h : SumDenotes sum osum) (hp : p.Exact) (hv : p.value = n.toInt) :
    Gives (Reduction.added sum n) (summed osum p).Exact (summed osum p).value := by
  cases h with
  | none => exact .inl ⟨hp, n, rfl, hv.symm⟩
  | @some x y hxy =>
    obtain ⟨left, sign⟩ := x
    obtain ⟨tree, sign'⟩ := y
    obtain ⟨hexact, hvalue, rfl⟩ := hxy
    have happly := sign.apply_gives left n
    dsimp only at hexact hvalue
    rw [← hvalue, ← hv] at happly
    exact happly.congr ⟨fun h => ⟨hexact, hp, h⟩, fun h => h.2.2⟩

/-- The states of the reduction and of the parser after the same terms. -/
inductive Reduction.Denotes (s : Reduction) : Parser → Prop
  | factor {level : Level} {outer : List Open} {o : Open} (hphase : s.phase = .factor level)
      (houter : List.Forall₂ Level.Denotes s.outer outer) (hlevel : level.Denotes o) :
      Denotes s (.factor outer o)
  | product {sum : Option (Int64 × AddSign)} {value : Int64} {outer : List Open}
      {osum : Option (SumTree × AddSign)} {p : ProductTree}
      (hphase : s.phase = .product sum value)
      (houter : List.Forall₂ Level.Denotes s.outer outer) (hsum : SumDenotes sum osum)
      (hp : p.Exact) (hv : p.value = value.toInt) : Denotes s (.product outer osum p)

def Open.Exact (o : Open) : Prop :=
  (∀ x ∈ o.sum, x.1.Exact) ∧ ∀ x ∈ o.product, x.1.Exact

/-- Nothing that is derived so far leaves the range of a word. -/
def Parser.Exact : Parser → Prop
  | .factor outer level => (∀ o ∈ outer, o.Exact) ∧ level.Exact
  | .product outer sum p => (∀ o ∈ outer, o.Exact) ∧ (∀ x ∈ sum, x.1.Exact) ∧ p.Exact

theorem exact_of_multiplied {level : Open} (h : (level.multiplied f).Exact) :
    (∀ x ∈ level.product, x.1.Exact) ∧ f.Exact := by
  obtain ⟨sum, product, signs⟩ := level
  cases product with
  | none => exact ⟨(by intro x hx; cases hx), exact_of_signed h⟩
  | some x =>
    refine ⟨fun y hy => ?_, exact_of_signed h.2.1⟩
    cases hy
    exact h.1

theorem exact_of_summed {sum : Option (SumTree × AddSign)} (h : (summed sum p).Exact) :
    (∀ x ∈ sum, x.1.Exact) ∧ p.Exact := by
  cases sum with
  | none => exact ⟨(by intro x hx; cases hx), h⟩
  | some x =>
    refine ⟨fun y hy => ?_, h.2.1⟩
    cases hy
    exact h.1

namespace Parser

variable {q q' : Parser} {term : Term} {outer : List Open} {level : Open}

theorem exact_of_supply (h : (supply outer level f).Exact) :
    (factor outer level).Exact ∧ f.Exact := by
  obtain ⟨houter, hsum, hproduct⟩ := h
  exact ⟨⟨houter, hsum, (exact_of_multiplied hproduct).1⟩, (exact_of_multiplied hproduct).2⟩

theorem exact_of_stepFactor (h : stepFactor outer level term = some q') (hq : q'.Exact) :
    (factor outer level).Exact := by
  unfold stepFactor at h
  split at h
  · cases h; exact (exact_of_supply hq).1
  · cases h
  · obtain ⟨sign, -, rfl⟩ := Option.map_eq_some_iff.1 h
    exact hq
  · cases h
    exact ⟨fun o ho => hq.1 o (List.mem_cons_of_mem level ho), hq.1 level (by simp)⟩
  · cases h

theorem exact_of_stepSum {e : SumTree} (h : stepSum outer e term = some q') (hq : q'.Exact) :
    (∀ o ∈ outer, o.Exact) ∧ e.Exact := by
  unfold stepSum at h
  split at h
  · obtain ⟨sign, -, rfl⟩ := Option.map_eq_some_iff.1 h
    exact ⟨hq.1, hq.2.1 _ rfl⟩
  · split at h
    · cases h
    · cases h
      obtain ⟨⟨houter, hlevel⟩, hparens⟩ := exact_of_supply hq
      refine ⟨fun o ho => ?_, hparens⟩
      rcases List.mem_cons.1 ho with rfl | ho
      · exact hlevel
      · exact houter o ho
  · cases h
  · cases h

theorem exact_of_stepProduct {sum : Option (SumTree × AddSign)}
    (h : stepProduct outer sum p term = some q') (hq : q'.Exact) :
    (product outer sum p).Exact := by
  unfold stepProduct at h
  split at h
  · cases h
    exact ⟨hq.1, hq.2.1, hq.2.2 _ rfl⟩
  · obtain ⟨houter, hsum⟩ := exact_of_stepSum h hq
    exact ⟨houter, exact_of_summed hsum⟩

/-- A derivation that leaves the range of a word does not come back. -/
theorem exact_of_step (h : q.step term = some q') (hq : q'.Exact) : q.Exact := by
  cases q with
  | factor outer level => exact exact_of_stepFactor h hq
  | product outer sum p => exact exact_of_stepProduct h hq

theorem exact_of_foldlM {terms : List Term} (h : terms.foldlM step q = some q') (hq : q'.Exact) :
    q.Exact := by
  induction terms generalizing q with
  | nil => cases h; exact hq
  | cons term terms ih =>
    rw [List.foldlM_cons] at h
    obtain ⟨q₁, hq₁, htail⟩ := Option.bind_eq_some_iff.1 h
    exact exact_of_step hq₁ (ih htail)

end Parser

/-! ### The simulation -/

/-- The reduction holds what the parser stands for; or it has failed, and the parser has failed too
or has left the range of a word. -/
def Matches (r : Except Failure Reduction) (q : Option Parser) : Prop :=
  (∃ s q', r = .ok s ∧ q = some q' ∧ s.Denotes q') ∨
    (∃ e, r = .error e) ∧ ∀ q', q = some q' → ¬ q'.Exact

namespace Reduction

variable {s : Reduction} {outer : List Open} {o : Open} {level : Level} {term : Term}

theorem supply_matches {houter : List Level} (h : List.Forall₂ Level.Denotes houter outer)
    (hlevel : level.Denotes o) (hf : f.Exact) (hv : f.value = n.toInt) :
    Matches (supply s houter level n) (some (.supply outer o f)) := by
  unfold supply
  rcases multiplied_gives hlevel hf hv with ⟨hexact, w, hw, hvalue⟩ | ⟨hexact, e, he⟩
  · rw [hw]
    exact .inl ⟨_, _, rfl, rfl, .product rfl h hlevel.sum hexact hvalue.symm⟩
  · rw [he]
    refine .inr ⟨⟨e, rfl⟩, fun q hq hall => ?_⟩
    cases hq
    exact hexact hall.2.2

theorem stepFactor_of_none {c : Char} (h : AddSign.ofChar? c = none) :
    s.stepFactor level (.operator c) = .error (.unexpected (.operator c)) := by
  unfold stepFactor
  split
  · next heq => cases heq
  · next heq => cases heq
  · next heq => cases heq; cases h
  · next heq => cases heq; cases h
  · next heq => cases heq
  · rfl
  · next heq => cases heq

theorem stepFactor_matches (houter : List.Forall₂ Level.Denotes s.outer outer)
    (hlevel : level.Denotes o) (hphase : s.phase = .factor level) :
    Matches (s.stepFactor level term) (Parser.stepFactor outer o term) := by
  cases term with
  | operand operand =>
    obtain ⟨value, type⟩ := operand
    cases value with
    | int n => exact supply_matches houter hlevel trivial rfl
    | text t => exact .inr ⟨⟨_, rfl⟩, by intro q hq; cases hq⟩
  | operator c =>
    cases hsign : AddSign.ofChar? c with
    | none =>
      rw [stepFactor_of_none hsign]
      refine .inr ⟨⟨_, rfl⟩, fun q hq => ?_⟩
      simp [Parser.stepFactor, hsign] at hq
    | some sign =>
      obtain rfl := AddSign.char_of_ofChar? hsign
      -- a plus sign leaves the level as it is
      cases sign with
      | plus =>
        refine .inl ⟨_, _, rfl, rfl, .factor hphase houter ⟨hlevel.sum, hlevel.product, ?_⟩⟩
        simp [List.count_append, hlevel.minuses]
      | minus =>
        refine .inl ⟨_, _, rfl, rfl, .factor rfl houter ⟨hlevel.sum, hlevel.product, ?_⟩⟩
        simp [List.count_append, hlevel.minuses]
  | leftParen => exact .inl ⟨_, _, rfl, rfl, .factor rfl (.cons hlevel houter) .empty⟩
  | rightParen => exact .inr ⟨⟨_, rfl⟩, by intro q hq; cases hq⟩

theorem stepSum_matches {e : SumTree} {total : Int64}
    (houter : List.Forall₂ Level.Denotes s.outer outer) (he : e.Exact)
    (hv : e.value = total.toInt) :
    Matches (s.stepSum total term) (Parser.stepSum outer e term) := by
  obtain ⟨levels, phase, type, index⟩ := s
  dsimp only at houter
  unfold stepSum
  cases term with
  | operator c =>
    cases hsign : AddSign.ofChar? c with
    | none =>
      have hnone : ∀ q, Parser.stepSum outer e (.operator c) ≠ some q := by
        simp [Parser.stepSum, hsign]
      cases houter with
      | nil =>
        refine .inr ⟨⟨.unexpectedAt (.operator c) index, ?_⟩, fun q hq => absurd hq (hnone q)⟩
        simp only [hsign]
      | cons =>
        refine .inr ⟨⟨.missingRightParen, ?_⟩, fun q hq => absurd hq (hnone q)⟩
        simp only [hsign]
    | some sign =>
      have hsum : SumDenotes (some (total, sign)) (some (e, sign)) := .some ⟨he, hv, rfl⟩
      simp only [Parser.stepSum, hsign, Option.map_some]
      exact .inl ⟨_, _, rfl, rfl, .factor rfl houter ⟨hsum, .none, rfl⟩⟩
  | rightParen =>
    cases houter with
    | nil => exact .inr ⟨⟨_, rfl⟩, by intro q hq; cases hq⟩
    | cons hlevel houter => exact supply_matches houter hlevel he hv
  | operand operand =>
    cases houter <;> exact .inr ⟨⟨_, rfl⟩, by intro q hq; cases hq⟩
  | leftParen =>
    cases houter <;> exact .inr ⟨⟨_, rfl⟩, by intro q hq; cases hq⟩

theorem stepProduct_eq (s : Reduction) (sum : Option (Int64 × AddSign)) (value : Int64)
    (term : Term) : s.stepProduct sum value term =
      match Parser.mulSign? term with
      | some sign =>
        .ok { s with phase := .factor ⟨sum, some (value, sign), 0⟩, index := s.index + 1 }
      | none => added sum value >>= fun total => s.stepSum total term := by
  cases term <;> rfl

theorem stepProduct_matches {sum : Option (Int64 × AddSign)} {value : Int64}
    {osum : Option (SumTree × AddSign)} (houter : List.Forall₂ Level.Denotes s.outer outer)
    (hsum : SumDenotes sum osum) (hp : p.Exact) (hv : p.value = value.toInt) :
    Matches (s.stepProduct sum value term) (Parser.stepProduct outer osum p term) := by
  rw [stepProduct_eq]
  unfold Parser.stepProduct
  cases Parser.mulSign? term with
  | some sign =>
    have hproduct : ProductDenotes (some (value, sign)) (some (p, sign)) := .some ⟨hp, hv, rfl⟩
    exact .inl ⟨_, _, rfl, rfl, .factor rfl houter ⟨hsum, hproduct, rfl⟩⟩
  | none =>
    rcases added_gives hsum hp hv with ⟨hexact, w, hw, hvalue⟩ | ⟨hexact, e, he⟩
    · rw [hw]
      exact stepSum_matches houter hexact hvalue.symm
    · rw [he]
      exact .inr ⟨⟨e, rfl⟩, fun q hq hall => hexact (Parser.exact_of_stepSum hq hall).2⟩

/-- The next term keeps the match. -/
theorem Denotes.step {q : Parser} (h : s.Denotes q) (term : Term) :
    Matches (s.step term) (q.step term) := by
  cases h with
  | factor hphase houter hlevel =>
    rw [Reduction.step, hphase]
    exact stepFactor_matches houter hlevel hphase
  | product hphase houter hsum hp hv =>
    rw [Reduction.step, hphase]
    exact stepProduct_matches houter hsum hp hv

theorem Denotes.foldlM {q : Parser} (h : s.Denotes q) (terms : List Term) :
    Matches (terms.foldlM Reduction.step s) (terms.foldlM Parser.step q) := by
  induction terms generalizing s q with
  | nil => exact .inl ⟨s, q, rfl, rfl, h⟩
  | cons term terms ih =>
    rw [List.foldlM_cons, List.foldlM_cons]
    rcases h.step term with ⟨s', q', hs, hq, hdenotes⟩ | ⟨⟨e, he⟩, hlost⟩
    · rw [hs, hq]
      exact ih hdenotes
    · rw [he]
      refine .inr ⟨⟨e, rfl⟩, fun q' hq' hexact => ?_⟩
      obtain ⟨q₁, hq₁, htail⟩ := Option.bind_eq_some_iff.1 hq'
      exact hlost q₁ hq₁ (Parser.exact_of_foldlM htail hexact)

/-- The operand in the end is the value of the derivation, if there is one and it is exact. -/
theorem Denotes.finish {q : Parser} (h : s.Denotes q) :
    (∃ e v type, s.finish = .ok ⟨.int v, type⟩ ∧ q.finish = some e ∧ e.Exact ∧ e.value = v.toInt) ∨
      (∃ failure, s.finish = .error failure) ∧ ∀ e, q.finish = some e → ¬ e.Exact := by
  cases h with
  | factor hphase houter hlevel =>
    refine .inr ⟨⟨.unexpectedEnd, ?_⟩, by intro e he; cases he⟩
    rw [Reduction.finish, hphase]
  | @product sum value outer osum p hphase houter hsum hp hv =>
    unfold Reduction.finish
    rw [hphase]
    dsimp only
    rcases added_gives hsum hp hv with ⟨hexact, w, hw, hvalue⟩ | ⟨hexact, e, he⟩
    · rw [hw]
      generalize s.outer = levels at houter
      cases houter with
      | nil => exact .inl ⟨summed osum p, w, s.type, rfl, rfl, hexact, hvalue.symm⟩
      | cons => exact .inr ⟨⟨_, rfl⟩, by intro e he; cases he⟩
    · rw [he]
      refine .inr ⟨⟨e, rfl⟩, fun e' he' => ?_⟩
      cases outer with
      | nil => cases he'; exact hexact
      | cons => cases he'

end Reduction

theorem reduce_eq_finish {terms : List Term} (hne : terms ≠ []) (hterms : ∀ o, terms ≠ [.operand o]) :
    reduce terms = terms.foldlM Reduction.step .start >>= Reduction.finish := by
  unfold reduce
  split
  · exact absurd rfl hne
  · exact absurd rfl (hterms _)
  · rfl

/-- A reduction that is not of a lone operand gives the value of an exact derivation, or there is
none and it fails. -/
theorem reduce_cases {terms : List Term} (hterms : ∀ o, terms ≠ [.operand o]) :
    (∃ (e : SumTree) (v : Int64) (type : Option TypeCode), reduce terms = .ok ⟨.int v, type⟩ ∧
        e.terms = terms ∧ e.Exact ∧ e.value = v.toInt) ∨
      (∃ failure, reduce terms = .error failure) ∧ ∀ e : SumTree, e.terms = terms → ¬ e.Exact := by
  simp only [← parse_eq_some_iff]
  by_cases hne : terms = []
  · subst hne
    exact .inr ⟨⟨_, rfl⟩, by intro e he; cases he⟩
  rw [reduce_eq_finish hne hterms]
  unfold parse
  have hstart : Reduction.start.Denotes Parser.start := .factor rfl .nil .empty
  rcases hstart.foldlM terms with ⟨s, q, hs, hq, hdenotes⟩ | ⟨⟨failure, hfail⟩, hlost⟩
  · rw [hs, hq]
    exact hdenotes.finish
  · rw [hfail]
    refine .inr ⟨⟨failure, rfl⟩, fun e he hexact => ?_⟩
    obtain ⟨q, hq, hfinish⟩ := Option.bind_eq_some_iff.1 he
    refine hlost q hq ?_
    -- the derivation in the end holds all that was derived before
    unfold Parser.finish at hfinish
    split at hfinish
    · cases hfinish
      obtain ⟨hsum, hp⟩ := exact_of_summed hexact
      exact ⟨by simp, hsum, hp⟩
    · cases hfinish
    · cases hfinish

/-- Terms other than a lone operand reduce to a number exactly if they have a derivation that stays
within words and divides by no zero; the derivation is unique and the number is its value. All other
terms, and all with text among them, fail. -/
theorem reduceTerms_exact {terms : List Term} (hterms : ∀ o, terms ≠ [.operand o]) :
    (∀ v : Int64, (∃ type, reduceTerms terms = .ok ⟨.int v, type⟩) ↔
      ∃ e : SumTree, e.terms = terms ∧ e.Exact ∧ e.value = v.toInt) ∧
    (∀ e e' : SumTree, e.terms = terms → e'.terms = terms → e = e') ∧
    ((∀ e : SumTree, e.terms = terms → ¬ e.Exact) →
      ∃ failure, reduceTerms terms = .error (.evaluationFailed failure)) ∧
    ∀ s type, .operand ⟨.text s, type⟩ ∈ terms →
      ∃ failure, reduceTerms terms = .error (.evaluationFailed failure) := by
  have hunique : ∀ e e' : SumTree, e.terms = terms → e'.terms = terms → e = e' :=
    fun e e' he he' => SumTree.eq_of_terms_eq (he.trans he'.symm)
  have hfails : (∀ e : SumTree, e.terms = terms → ¬ e.Exact) →
      ∃ failure, reduceTerms terms = .error (.evaluationFailed failure) := by
    intro hnone
    rcases reduce_cases hterms with ⟨e, v, type, -, he, hexact, -⟩ | ⟨⟨failure, hfail⟩, -⟩
    · exact absurd hexact (hnone e he)
    · exact ⟨failure, by rw [reduceTerms, hfail]; rfl⟩
  refine ⟨fun v => ⟨?_, ?_⟩, hunique, hfails, fun s type hmem => hfails fun e he => ?_⟩
  · rintro ⟨type, hok⟩
    unfold reduceTerms at hok
    rcases reduce_cases hterms with ⟨e, w, type', hw, he, hexact, hvalue⟩ | ⟨⟨failure, hfail⟩, -⟩
    · rw [hw] at hok
      cases hok
      exact ⟨e, he, hexact, hvalue⟩
    · rw [hfail] at hok
      cases hok
  · rintro ⟨e, he, hexact, hvalue⟩
    rcases reduce_cases hterms with ⟨e', w, type, hw, he', -, hvalue'⟩ | ⟨-, hnone⟩
    · rw [hunique e' e he' he, hvalue] at hvalue'
      rw [reduceTerms, hw, Int64.toInt_inj.1 hvalue']
      exact ⟨type, rfl⟩
    · exact absurd hexact (hnone e he)
  · rw [← he] at hmem
    exact absurd hmem (e.text_notMem s type)

/-- Division truncates toward zero, and a sign may stand behind a division. -/
theorem reduceTerms_exact_division :
    ∃ type, reduceTerms [.operator '-', .leftParen, .operand (.int 7), .operator '/', .operator '-',
      .operand (.int 2), .rightParen] = .ok ⟨.int 3, type⟩ := by
  refine ((reduceTerms_exact (by simp)).1 3).2 ⟨.product (.factor (.signed .minus (.parens
    (.product (.join (.factor (.operand 7 none)) .divide (.signed .minus (.operand 2 none))))))),
    rfl, ?_, by decide⟩
  have hquotient : IsWord (MulSign.divide.join 7 (-2)) :=
    ⟨by decide, by decide⟩
  have hnegated : IsWord (AddSign.minus.before (MulSign.divide.join 7 (-2))) :=
    ⟨by decide, by decide⟩
  have hdivisor : IsWord (AddSign.minus.before 2) := ⟨by decide, by decide⟩
  exact ⟨⟨trivial, ⟨trivial, hdivisor⟩, by decide, hquotient⟩, hnegated⟩

end AsmLayout.Expr
