import AsmLayout.Proofs.Expr.EntryPoints
import AsmLayout.Proofs.Expr.Reduction
import AsmLayout.Proofs.Expr.Splitting

/-!
# What a formula means as a text

The leaves of a formula get their values from its text, and the terms have a derivation with the
value of the formula (`Expr.Formula.Writes.becomes`). Main statement: `Expr.evaluate_writtenAs`.
-/

namespace AsmLayout.Expr

variable {ps qs : List Piece} {text field : List Char} {l : Leaf} {e : Formula} {place : Place}
  {terms : List Term} {L : Lookups}

theorem symbolKey_eq {name : String} (h : '&' ∉ name.toList) : symbolKey name.toList = name := by
  have hall : ∀ c ∈ name.toList, (c != '&') = true := fun c hc =>
    bne_iff_ne.2 fun heq => h (heq ▸ hc)
  rw [symbolKey, List.takeWhile_eq_self_iff.2 hall, String.ofList_toList]

/-- The operand that a self-defining term is, whatever characters its payload has. -/
theorem resolveText_doubled {code : List Char} {type : TypeCode}
    (hcode : TypeCode.ofCode? (String.ofList code) = some type) (payload : List Char) :
    resolveText L (code ++ '\'' :: (Text.doubled payload ++ ['\''])) =
      (selfDefining type payload).map fun value => ⟨value, some type⟩ := by
  obtain ⟨hname, hlength⟩ := isName_of_ofCode? hcode
  have hempty : (String.ofList code).isEmpty = false := by
    rw [Text.isEmpty_ofList]
    simp [hname.ne_nil]
  rw [Token.resolveText_quoted hname (Token.undoubled_payload payload), resolveField, hempty,
    if_neg Bool.false_ne_true, hlength, if_neg Bool.false_ne_true, TypeCatalog.ofCode?_standard,
    hcode]
  dsimp only
  cases selfDefining type payload <;> rfl

theorem resolveText_selfDefining {code : List Char} {type : TypeCode} {n : Int64}
    (hcode : TypeCode.ofCode? (String.ofList code) = some type) (hfield : ∀ c ∈ field, c ≠ '\'')
    (hvalue : selfDefining type field = .ok (.int n)) :
    resolveText L (code ++ '\'' :: (field ++ ['\''])) = .ok ⟨.int n, some type⟩ := by
  have hdoubled := @resolveText_doubled L code type hcode field
  rw [Text.doubled_of_ne hfield, hvalue] at hdoubled
  exact hdoubled

theorem selfDefining_hexadecimal {digits : List Char} {n : Int64} (hne : digits ≠ [])
    (hdigits : ∀ c ∈ digits, Text.isHexDigit c = true) (hn : n.toInt = Text.digitsValue 16 digits) :
    selfDefining .x digits = .ok (.int n) := by
  have hhex : Text.hexadecimal? digits = some (Text.digitsValue 16 digits) :=
    Text.hexadecimal?_eq_some_iff.2 ⟨hne, hdigits, rfl⟩
  simp only [selfDefining, hhex, Option.bind_some, int64?_eq_some_iff.2 hn]

theorem signedDecimal?_sign {digits : List Char} (hne : digits ≠ [])
    (hdigits : ∀ c ∈ digits, c.isDigit = true) (sign : Option AddSign) :
    Text.signedDecimal? ((sign.map AddSign.char).toList ++ digits) =
      some ((sign.getD .plus).before (Text.digitsValue 10 digits)) := by
  have hdecimal := Text.decimal?_of_isDigit hne hdigits
  cases sign with
  | some sign =>
    cases sign <;> simp [Text.signedDecimal?, AddSign.char, hdecimal, AddSign.before]
  | none =>
    cases digits with
    | nil => exact absurd rfl hne
    | cons d ds =>
      have hd : d.isDigit = true := hdigits d (by simp)
      have hplain : Text.signedDecimal? (d :: ds) = (Text.decimal? (d :: ds)).map Int.ofNat := by
        unfold Text.signedDecimal?
        split
        · next heq => cases heq; exact absurd hd (by decide)
        · next heq => cases heq; exact absurd hd (by decide)
        · rfl
      show Text.signedDecimal? (d :: ds) = _
      rw [hplain, hdecimal]
      rfl

theorem selfDefining_decimal {type : TypeCode} {n : Int64} (htype : type ≠ .x ∧ type ≠ .c)
    (hvalue : Text.signedDecimal? field = some n.toInt) :
    selfDefining type field = .ok (.int n) := by
  have hn : int64? n.toInt = some n := int64?_eq_some_iff.2 rfl
  obtain ⟨hx, hc⟩ := htype
  cases type with
  | x => exact absurd rfl hx
  | c => exact absurd rfl hc
  | _ => simp only [selfDefining, hvalue, Option.bind_some, hn]

/-- A leaf that is written has the value of the leaf, or its error. -/
theorem Leaf.Spells.resolve (h : l.Spells text) (L : Lookups) :
    (∃ e, l.error? L = some e ∧ resolveText L text = .error e) ∨
      l.error? L = none ∧
        ∃ n type, resolveText L text = .ok ⟨.int n, type⟩ ∧ l.value L = n.toInt := by
  cases h with
  | constant hne hdigits hn =>
    refine .inr ⟨rfl, _, none, ?_, rfl⟩
    unfold resolveText
    rw [Text.decimal?_of_isDigit hne hdigits]
    simp only [int64?_eq_some_iff.2 hn]
    rfl
  | @symbol name hname hsuffix =>
    rw [Token.resolveText_name hname, resolveField, if_pos (String.isEmpty_iff.2 rfl), symbolKey_eq hsuffix]
    simp only [Leaf.error?, Leaf.value, Leaf.resolve]
    cases L.symbols.displacement name with
    | none => exact .inl ⟨_, rfl, rfl⟩
    | some n => exact .inr ⟨rfl, n, none, rfl, rfl⟩
  | @lengthOf c name hc hname hsuffix =>
    obtain ⟨hcode, hlength⟩ := isName_lengthCode hc
    have hempty : (String.ofList [c]).isEmpty = false := Text.isEmpty_ofList [c]
    have hquoted := Token.resolveText_quoted (L := L) hcode (Token.undoubled_name hname.chars)
    rw [List.singleton_append] at hquoted
    rw [hquoted, resolveField, hempty, hlength, if_neg Bool.false_ne_true, if_pos rfl,
      symbolKey_eq hsuffix]
    simp only [Leaf.error?, Leaf.value, Leaf.resolve]
    cases L.symbols.length name with
    | none => exact .inl ⟨_, rfl, rfl⟩
    | some n => exact .inr ⟨rfl, n, none, rfl, rfl⟩
  | hexadecimal hcode hne hdigits hn =>
    refine .inr ⟨rfl, _, _, resolveText_selfDefining hcode ?_ ?_, rfl⟩
    · exact fun c hc => ne_apostrophe_of_isHexDigit (hdigits c hc)
    · exact selfDefining_hexadecimal hne hdigits hn
  | @decimal code digits type n sign hcode htype hne hdigits hn =>
    have hvalue := signedDecimal?_sign hne hdigits sign
    rw [← hn] at hvalue
    exact .inr ⟨rfl, n, some type, resolveText_selfDefining hcode (ne_apostrophe_of_signed hdigits)
      (selfDefining_decimal htype hvalue), rfl⟩
  | counter => exact .inr ⟨rfl, L.counter, none, rfl, rfl⟩

namespace Formula

/-- The terms have a derivation with the value of the formula, exact where the formula is. -/
def Derives (L : Lookups) (e : Formula) (terms : List Term) : Place → Prop
  | .sum => ∃ t : SumTree, t.terms = terms ∧ t.value = e.value L ∧ (t.Exact ↔ e.Exact L)
  | .product => ∃ t : ProductTree, t.terms = terms ∧ t.value = e.value L ∧ (t.Exact ↔ e.Exact L)
  | .factor => ∃ t : FactorTree, t.terms = terms ∧ t.value = e.value L ∧ (t.Exact ↔ e.Exact L)

theorem Derives.of_product (h : e.Derives L terms .product) (hplace : place ≠ .factor) :
    e.Derives L terms place := by
  cases place with
  | sum =>
    obtain ⟨t, ht⟩ := h
    exact ⟨.product t, ht⟩
  | product => exact h
  | factor => exact absurd rfl hplace

theorem Derives.of_factor (h : e.Derives L terms .factor) (place : Place) :
    e.Derives L terms place := by
  by_cases hplace : place = .factor
  · rwa [hplace]
  · obtain ⟨t, ht⟩ := h
    exact of_product ⟨.factor t, ht⟩ hplace

/-- What becomes of the pieces of a formula: the error of its leftmost undefined name, or terms. -/
inductive Becomes (L : Lookups) (e : Formula) (place : Place) :
    Except EvalError (List Term) → Prop
  | error {err : EvalError} (h : e.error? L = some err) : Becomes L e place (.error err)
  | terms {terms : List Term} (h : e.error? L = none) (hderives : e.Derives L terms place) :
      Becomes L e place (.ok terms)

variable {left right : Formula}

theorem error?_append {e left right : Formula} (hleaves : e.leaves = left.leaves ++ right.leaves) :
    e.error? L = (left.error? L).or (right.error? L) := by
  rw [error?, hleaves, List.findSome?_append, error?, error?]

/-- Two operands and the sign between them. -/
theorem becomes_join {placeₗ placeᵣ : Place} {c : Char}
    (hleaves : e.leaves = left.leaves ++ right.leaves)
    (hleft : left.Becomes L placeₗ (ps.mapM (resolvePiece L)))
    (hright : right.Becomes L placeᵣ (qs.mapM (resolvePiece L)))
    (hjoin : ∀ ts us, left.Derives L ts placeₗ → right.Derives L us placeᵣ →
      e.Derives L (ts ++ .operator c :: us) place) :
    e.Becomes L place ((ps ++ .operator c :: qs).mapM (resolvePiece L)) := by
  have herror := error?_append (L := L) hleaves
  rw [List.mapM_append, List.mapM_cons]
  generalize ps.mapM (resolvePiece L) = r at hleft
  generalize qs.mapM (resolvePiece L) = r' at hright
  cases hleft with
  | error hl => exact .error (by rw [herror, hl, Option.some_or])
  | terms hl htl =>
    rw [hl, Option.none_or] at herror
    cases hright with
    | error hr => exact .error (by rw [herror, hr])
    | terms hr htr => exact .terms (by rw [herror, hr]) (hjoin _ _ htl htr)

theorem Writes.becomes (h : e.Writes place ps) (L : Lookups) :
    e.Becomes L place (ps.mapM (resolvePiece L)) := by
  induction h with
  | @leaf place l text h =>
    have herror : (Formula.leaf l).error? L = l.error? L := by
      rw [error?, leaves, List.findSome?_singleton]
    rw [List.mapM_cons, List.mapM_nil, resolvePiece]
    rcases h.resolve L with ⟨err, herr, hr⟩ | ⟨hnone, n, type, hr, hvalue⟩
    · rw [hr]
      exact .error (herror.trans herr)
    · rw [hr]
      have hderives : (Formula.leaf l).Derives L [.operand ⟨.int n, type⟩] .factor :=
        ⟨.operand n type, rfl, hvalue.symm, Iff.rfl⟩
      exact .terms (herror.trans hnone) (hderives.of_factor place)
  | @signed place sign e ps _ ih =>
    rw [List.mapM_cons]
    generalize ps.mapM (resolvePiece L) = r at ih
    cases ih with
    | error herr => exact .error herr
    | @terms ts hnone hderives =>
      obtain ⟨t, rfl, hvalue, hexact⟩ := hderives
      have hsigned : (Formula.signed sign e).Derives L (.operator sign.char :: t.terms) .factor := by
        refine ⟨.signed sign t, rfl, ?_, ?_⟩
        · rw [FactorTree.value, value, hvalue]
        · rw [FactorTree.Exact, Exact, hvalue, hexact]
      exact .terms hnone (hsigned.of_factor place)
  | @sum left right sign ps qs _ _ ihl ihr =>
    refine becomes_join rfl ihl ihr ?_
    rintro ts us ⟨t, rfl, hvalue, hexact⟩ ⟨u, rfl, hvalue', hexact'⟩
    refine ⟨.join t sign u, rfl, ?_, ?_⟩
    · rw [SumTree.value, value, hvalue, hvalue']
    · rw [SumTree.Exact, Exact, hvalue, hvalue', hexact, hexact']
  | @product place left right sign ps qs hplace _ _ ihl ihr =>
    refine becomes_join rfl ihl ihr ?_
    rintro ts us ⟨t, rfl, hvalue, hexact⟩ ⟨u, rfl, hvalue', hexact'⟩
    refine Derives.of_product ⟨.join t sign u, rfl, ?_, ?_⟩ hplace
    · rw [ProductTree.value, value, hvalue, hvalue']
    · rw [ProductTree.Exact, Exact, hvalue, hvalue', hexact, hexact']
  | @wrapped place e ps _ ih =>
    rw [List.mapM_cons, List.mapM_append]
    generalize ps.mapM (resolvePiece L) = r at ih
    cases ih with
    | error herr => exact .error herr
    | @terms ts hnone hderives =>
      obtain ⟨t, rfl, hvalue, hexact⟩ := hderives
      have hparens : e.Derives L (.leftParen :: (t.terms ++ [.rightParen])) .factor :=
        ⟨.parens t, rfl, hvalue, hexact⟩
      exact .terms hnone (hparens.of_factor place)

end Formula

/-- The terms of a derivation reduce to its value where it is exact, and fail elsewhere. -/
theorem reduce_derivation (t : SumTree) :
    t.Exact ∧ (∃ n type, reduce t.terms = .ok ⟨.int n, type⟩ ∧ n.toInt = t.value) ∨
      ¬ t.Exact ∧ ∃ failure, reduce t.terms = .error failure := by
  by_cases hlone : ∃ o, t.terms = [.operand o]
  · obtain ⟨⟨value, type⟩, hterms⟩ := hlone
    cases value with
    | text s => exact absurd (by simp [hterms]) (t.text_notMem s type)
    | int n =>
      -- the reduction gives it back as it is, whatever its type
      obtain rfl : t = .product (.factor (.operand n type)) := SumTree.eq_of_terms_eq hterms
      exact .inl ⟨trivial, n, type, rfl, rfl⟩
  · rcases reduce_cases (not_exists.1 hlone) with ⟨e, n, type, hok, he, hexact, hvalue⟩ | ⟨hfail, hnone⟩
    · obtain rfl := SumTree.eq_of_terms_eq he
      exact .inl ⟨hexact, n, type, hok, hvalue.symm⟩
    · exact .inr ⟨hnone t rfl, hfail⟩

/-- The text of a formula has the error of the leftmost name that is not defined; if there is none,
it has the value of the formula where no sub-expression leaves the range of a word and no divisor is
zero, and fails elsewhere. -/
theorem evaluate_writtenAs {text : String} (h : e.WrittenAs text) (L : Lookups) :
    (∀ err, e.error? L = some err → evaluate L text = .error err) ∧
    (e.error? L = none → e.Exact L →
      ∃ n type, evaluate L text = .ok ⟨.int n, type⟩ ∧ n.toInt = e.value L) ∧
    (e.error? L = none → ¬ e.Exact L →
      ∃ failure, evaluate L text = .error (.evaluationFailed failure)) := by
  obtain ⟨ps, hwrites, hspaced⟩ := h
  have hfit : Fit [] ps := (hwrites.fit rfl).1
  have hsplit : split (Text.strip text.toList) = some ps := by
    rw [split_strip]
    exact split_of_spaced hspaced hfit
  rw [evaluate_of_split hsplit]
  -- terms are reduced only where every name is defined
  have hbecomes := hwrites.becomes L
  generalize ps.mapM (resolvePiece L) = r at hbecomes
  cases hbecomes with
  | @error err herr =>
    rw [herr]
    refine ⟨?_, nofun, nofun⟩
    rintro _ ⟨⟩
    rfl
  | @terms terms hnone hderives =>
    obtain ⟨t, rfl, hvalue, hexact⟩ := hderives
    rw [hnone, ← hvalue, ← hexact]
    show _ ∧ (_ → _ → ∃ n type, reduceTerms t.terms = _ ∧ _) ∧
      (_ → _ → ∃ failure, reduceTerms t.terms = _)
    unfold reduceTerms
    rcases reduce_derivation t with ⟨hyes, n, type, hok, hn⟩ | ⟨hno, failure, hfail⟩
    · rw [hok]
      exact ⟨nofun, fun _ _ => ⟨n, type, rfl, hn⟩, fun _ hno => absurd hyes hno⟩
    · rw [hfail]
      exact ⟨nofun, fun _ hyes => absurd hyes hno, fun _ _ => ⟨failure, rfl⟩⟩

/-- A sign before parentheses, the counter after a division sign and a signed decimal term. -/
theorem evaluate_writtenAs_quotient :
    let L : Lookups := ⟨10, SymbolMap.symbols ⟨[("A", (3, 1)), ("B", (0, 4))]⟩, none⟩
    let e : Formula := .sum (.product (.product (.signed .minus (.sum (.leaf (.symbol "A")) .plus
      (.leaf (.lengthOf "B")))) .times (.leaf (.selfDefining .x 31))) .divide (.leaf .counter))
      .minus (.leaf (.selfDefining .f (-5)))
    e.WrittenAs " - ( A + l'B ) * x'1F' / * - F'-5'" ∧ e.error? L = none ∧ e.Exact L ∧
      ∃ n type, evaluate L " - ( A + l'B ) * x'1F' / * - F'-5'" = .ok ⟨.int n, type⟩ ∧
        n.toInt = -16 := by
  intro L e
  have hA : Leaf.Spells (.symbol "A") ['A'] := .symbol (.of_isNameStart (by decide)) (by decide)
  have hB : Leaf.Spells (.lengthOf "B") ['l', '\'', 'B'] :=
    .lengthOf (.inr rfl) (.of_isNameStart (by decide)) (by decide)
  have hx : Leaf.Spells (.selfDefining .x 31) (['x'] ++ '\'' :: (['1', 'F'] ++ ['\''])) :=
    .hexadecimal (by decide) (by simp) (by simp; decide) (by decide)
  have hf : Leaf.Spells (.selfDefining .f (-5))
      (['F'] ++ '\'' :: ((Option.map AddSign.char (some .minus)).toList ++ ['5'] ++ ['\''])) :=
    .decimal (by decide) (by simp) (by simp) (by simp) (by decide)
  have hwrites : e.Writes .sum _ := .sum (.product (by simp) (.product (by simp)
    (.signed (.wrapped (.sum (.leaf hA) (.leaf hB)))) (.leaf hx)) (.leaf .counter)) (.leaf hf)
  have hwritten : e.WrittenAs " - ( A + l'B ) * x'1F' / * - F'-5'" :=
    ⟨_, hwrites, @spaced_flatMap [' '] (by simp; decide) _⟩
  have hexact : e.Exact L := by
    have hword : ∀ n : Int, -300 ≤ n ∧ n ≤ 300 → IsWord n := fun n hn => ⟨by omega, by omega⟩
    refine ⟨⟨⟨⟨⟨trivial, trivial, hword _ ?_⟩, hword _ ?_⟩, trivial, nofun, hword _ ?_⟩, trivial, ?_,
      hword _ ?_⟩, trivial, hword _ ?_⟩
    all_goals decide
  obtain ⟨n, type, hok, hn⟩ := (evaluate_writtenAs hwritten L).2.1 (by decide) hexact
  exact ⟨hwritten, by decide, hexact, n, type, hok, hn.trans (by decide)⟩

end AsmLayout.Expr
