import AsmLayout.Proofs.Expr.Grammar

/-!
# Parsing expressions

`parse` builds the derivation of a list of terms, one term after another; it holds trees where the
reduction of an expression holds words. Main statements: `parse_eq_some_iff` (it finds a derivation
exactly if there is one) and `SumTree.eq_of_terms_eq` (derivations are unique).
-/

namespace AsmLayout.Expr

/-- The part of a derivation before a factor that is still to come, since the last open
parenthesis. -/
structure Open where
  sum : Option (SumTree × AddSign)
  product : Option (ProductTree × MulSign)
  /-- The signs directly before the factor. -/
  signs : List AddSign

/-- The state of the parser after some terms: a factor is due, or a product is complete unless a
further factor joins it. The levels around the open parentheses stand with the innermost first. -/
inductive Parser
  | factor (outer : List Open) (level : Open)
  | product (outer : List Open) (sum : Option (SumTree × AddSign)) (p : ProductTree)

def Open.empty : Open := ⟨none, none, []⟩

/-- The product that a factor completes. -/
def Open.multiplied (level : Open) (f : FactorTree) : ProductTree :=
  let f := level.signs.foldr .signed f
  match level.product with
  | none => .factor f
  | some (left, sign) => .join left sign f

/-- The sum that a product completes. -/
def summed (sum : Option (SumTree × AddSign)) (p : ProductTree) : SumTree :=
  match sum with
  | none => .product p
  | some (left, sign) => .join left sign p

namespace Parser

def start : Parser := .factor [] .empty

/-- The state once a factor is complete. -/
def supply (outer : List Open) (level : Open) (f : FactorTree) : Parser :=
  .product outer level.sum (level.multiplied f)

def stepFactor (outer : List Open) (level : Open) : Term → Option Parser
  | .operand ⟨.int n, type⟩ => some (supply outer level (.operand n type))
  | .operand ⟨.text _, _⟩ => none
  | .operator c =>
    (AddSign.ofChar? c).map fun sign => .factor outer { level with signs := level.signs ++ [sign] }
  | .leftParen => some (.factor (level :: outer) .empty)
  | .rightParen => none

/-- A term that does not continue the product before it. -/
def stepSum (outer : List Open) (e : SumTree) : Term → Option Parser
  | .operator c => (AddSign.ofChar? c).map fun sign => .factor outer ⟨some (e, sign), none, []⟩
  | .rightParen =>
    match outer with
    | [] => none
    | level :: outer => some (supply outer level (.parens e))
  | .operand _ | .leftParen => none

def mulSign? : Term → Option MulSign
  | .operator c => MulSign.ofChar? c
  | _ => none

def stepProduct (outer : List Open) (sum : Option (SumTree × AddSign)) (p : ProductTree)
    (term : Term) : Option Parser :=
  match mulSign? term with
  | some sign => some (.factor outer ⟨sum, some (p, sign), []⟩)
  | none => stepSum outer (summed sum p) term

def step : Parser → Term → Option Parser
  | .factor outer level, term => stepFactor outer level term
  | .product outer sum p, term => stepProduct outer sum p term

/-- The derivation, once there are no more terms. -/
def finish : Parser → Option SumTree
  | .product [] sum p => some (summed sum p)
  | .product (_ :: _) _ _ | .factor _ _ => none

end Parser

/-- The derivation of a list of terms. -/
def parse (terms : List Term) : Option SumTree :=
  (terms.foldlM Parser.step Parser.start).bind Parser.finish

/-- The terms of the sum before a product. -/
def sumTerms : Option (SumTree × AddSign) → List Term
  | none => []
  | some (left, sign) => left.terms ++ [.operator sign.char]

def productTerms : Option (ProductTree × MulSign) → List Term
  | none => []
  | some (left, sign) => left.terms ++ [.operator sign.char]

def signTerms (signs : List AddSign) : List Term := signs.map fun sign => .operator sign.char

def Open.terms (level : Open) : List Term :=
  sumTerms level.sum ++ (productTerms level.product ++ signTerms level.signs)

/-- The terms before the innermost open parenthesis, that included. -/
def outerTerms : List Open → List Term
  | [] => []
  | level :: outer => outerTerms outer ++ (level.terms ++ [.leftParen])

def Parser.terms : Parser → List Term
  | .factor outer level => outerTerms outer ++ level.terms
  | .product outer sum p => outerTerms outer ++ (sumTerms sum ++ p.terms)

theorem terms_signed (signs : List AddSign) (f : FactorTree) :
    (signs.foldr .signed f).terms = signTerms signs ++ f.terms := by
  induction signs with
  | nil => rfl
  | cons sign signs ih =>
    rw [List.foldr_cons, FactorTree.terms, ih]
    rfl

theorem terms_multiplied (level : Open) (f : FactorTree) :
    sumTerms level.sum ++ (level.multiplied f).terms = level.terms ++ f.terms := by
  obtain ⟨sum, product, signs⟩ := level
  cases product with
  | none => simp [Open.multiplied, Open.terms, ProductTree.terms, productTerms, terms_signed]
  | some left => simp [Open.multiplied, Open.terms, ProductTree.terms, productTerms, terms_signed]

theorem terms_summed (sum : Option (SumTree × AddSign)) (p : ProductTree) :
    (summed sum p).terms = sumTerms sum ++ p.terms := by
  cases sum with
  | none => rfl
  | some left => simp [summed, SumTree.terms, sumTerms]

namespace Parser

variable {q q' : Parser} {term : Term} {outer : List Open} {level : Open} {f : FactorTree}

theorem terms_supply : (supply outer level f).terms = outerTerms outer ++ (level.terms ++ f.terms) := by
  rw [supply, terms, terms_multiplied]

theorem terms_stepFactor (h : stepFactor outer level term = some q') :
    q'.terms = outerTerms outer ++ level.terms ++ [term] := by
  unfold stepFactor at h
  split at h
  · cases h
    simp [terms_supply, FactorTree.terms]
  · cases h
  · obtain ⟨sign, hsign, rfl⟩ := Option.map_eq_some_iff.1 h
    simp [terms, Open.terms, signTerms, AddSign.char_of_ofChar? hsign]
  · cases h
    simp [terms, outerTerms, Open.terms, Open.empty, sumTerms, productTerms, signTerms]
  · cases h

theorem terms_stepSum {e : SumTree} (h : stepSum outer e term = some q') :
    q'.terms = outerTerms outer ++ e.terms ++ [term] := by
  unfold stepSum at h
  split at h
  · obtain ⟨sign, hsign, rfl⟩ := Option.map_eq_some_iff.1 h
    simp [terms, Open.terms, sumTerms, productTerms, signTerms, AddSign.char_of_ofChar? hsign]
  · split at h
    · cases h
    · cases h
      simp [terms_supply, outerTerms, FactorTree.terms]
  · cases h
  · cases h

theorem eq_of_mulSign? {sign : MulSign} (h : mulSign? term = some sign) :
    term = .operator sign.char := by
  cases term with
  | operator c => rw [MulSign.char_of_ofChar? h]
  | _ => cases h

theorem terms_stepProduct {sum : Option (SumTree × AddSign)} {p : ProductTree}
    (h : stepProduct outer sum p term = some q') :
    q'.terms = outerTerms outer ++ (sumTerms sum ++ p.terms) ++ [term] := by
  unfold stepProduct at h
  split at h
  · next sign hsign =>
    cases h
    simp [terms, Open.terms, productTerms, signTerms, eq_of_mulSign? hsign]
  · rw [terms_stepSum h, terms_summed]

/-- Every term becomes part of the derivation where it is read. -/
theorem terms_step (h : q.step term = some q') : q'.terms = q.terms ++ [term] := by
  cases q with
  | factor outer level => exact terms_stepFactor h
  | product outer sum p => exact terms_stepProduct h

theorem terms_foldlM {terms : List Term} (h : terms.foldlM step q = some q') :
    q'.terms = q.terms ++ terms := by
  induction terms generalizing q with
  | nil => cases h; rw [List.append_nil]
  | cons term terms ih =>
    rw [List.foldlM_cons] at h
    obtain ⟨q₁, hq₁, htail⟩ := Option.bind_eq_some_iff.1 h
    rw [ih htail, terms_step hq₁, List.append_assoc]
    rfl

theorem terms_finish {e : SumTree} (h : q.finish = some e) : e.terms = q.terms := by
  unfold finish at h
  split at h
  · cases h
    rw [terms_summed]
    rfl
  · cases h
  · cases h

end Parser

mutual

theorem SumTree.run (e : SumTree) (outer : List Open) :
    ∃ sum p, e.terms.foldlM Parser.step (.factor outer .empty) = some (.product outer sum p) ∧
      summed sum p = e := by
  cases e with
  | product p => exact ⟨none, p, p.run outer none, rfl⟩
  | join left sign right =>
    obtain ⟨sum, p, hleft, rfl⟩ := left.run outer
    refine ⟨some (summed sum p, sign), right, ?_, rfl⟩
    rw [SumTree.terms, List.foldlM_append, hleft, Option.bind_eq_bind, Option.bind_some,
      List.foldlM_cons]
    have hstep : (Parser.product outer sum p).step (.operator sign.char) =
        some (.factor outer ⟨some (summed sum p, sign), none, []⟩) := by
      cases sign <;> rfl
    rw [hstep, Option.bind_eq_bind, Option.bind_some]
    exact right.run outer (some (summed sum p, sign))

theorem ProductTree.run (p : ProductTree) (outer : List Open)
    (sum : Option (SumTree × AddSign)) :
    p.terms.foldlM Parser.step (.factor outer ⟨sum, none, []⟩) = some (.product outer sum p) := by
  cases p with
  | factor f => exact f.run outer ⟨sum, none, []⟩
  | join left sign right =>
    rw [ProductTree.terms, List.foldlM_append, left.run outer sum, Option.bind_eq_bind,
      Option.bind_some, List.foldlM_cons]
    have hstep : (Parser.product outer sum left).step (.operator sign.char) =
        some (.factor outer ⟨sum, some (left, sign), []⟩) := by
      cases sign <;> rfl
    rw [hstep, Option.bind_eq_bind, Option.bind_some]
    exact right.run outer ⟨sum, some (left, sign), []⟩

theorem FactorTree.run (f : FactorTree) (outer : List Open) (level : Open) :
    f.terms.foldlM Parser.step (.factor outer level) = some (Parser.supply outer level f) := by
  cases f with
  | operand n type => rfl
  | parens e =>
    obtain ⟨sum, p, hsum, rfl⟩ := e.run (level :: outer)
    rw [FactorTree.terms, List.foldlM_cons]
    have hstep : (Parser.factor outer level).step .leftParen =
        some (.factor (level :: outer) .empty) := rfl
    rw [hstep, Option.bind_eq_bind, Option.bind_some, List.foldlM_append, hsum]
    rfl
  | signed sign f =>
    rw [FactorTree.terms, List.foldlM_cons]
    have hstep : (Parser.factor outer level).step (.operator sign.char) =
        some (.factor outer { level with signs := level.signs ++ [sign] }) := by
      cases sign <;> rfl
    rw [hstep, Option.bind_eq_bind, Option.bind_some, f.run outer]
    simp [Parser.supply, Open.multiplied]

end

theorem SumTree.parse_terms (e : SumTree) : parse e.terms = some e := by
  obtain ⟨sum, p, hrun, rfl⟩ := e.run []
  unfold parse Parser.start
  rw [hrun]
  rfl

/-- The parser finds a derivation exactly if there is one. -/
theorem parse_eq_some_iff {terms : List Term} {e : SumTree} :
    parse terms = some e ↔ e.terms = terms := by
  constructor
  · intro h
    obtain ⟨q, hq, hfinish⟩ := Option.bind_eq_some_iff.1 h
    rw [Parser.terms_finish hfinish, Parser.terms_foldlM hq]
    rfl
  · rintro rfl
    exact e.parse_terms

theorem SumTree.eq_of_terms_eq {e e' : SumTree} (h : e.terms = e'.terms) : e = e' := by
  have he := e.parse_terms
  rw [h, e'.parse_terms] at he
  exact (Option.some.inj he).symm

end AsmLayout.Expr
