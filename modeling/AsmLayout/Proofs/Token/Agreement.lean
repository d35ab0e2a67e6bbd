import AsmLayout.Expr
import AsmLayout.Proofs.Token.Chars

/-!
# Tokens and the pieces they agree with

A token and a piece of an operand text agree when they are written alike. Main statement:
`Token.Agrees.resolve` (what agrees stands for the same term, or fails with the same error but for
the case of a type code, which tokens keep in upper case).
-/

namespace AsmLayout

namespace Text

theorem isEmpty_ofList (cs : List Char) : (String.ofList cs).isEmpty = cs.isEmpty := by
  rw [Bool.eq_iff_iff, String.isEmpty_iff, ← String.toList_eq_nil_iff, String.toList_ofList,
    List.isEmpty_iff]

theorem doubled_append (cs ds : List Char) : doubled (cs ++ ds) = doubled cs ++ doubled ds := by
  induction cs with
  | nil => rfl
  | cons c cs ih =>
    by_cases hc : c = '\''
    · simp [doubled, hc, ih]
    · simp [doubled, hc, ih]

theorem doubled_of_ne {cs : List Char} (h : ∀ c ∈ cs, c ≠ '\'') : doubled cs = cs := by
  induction cs with
  | nil => rfl
  | cons c cs ih =>
    rw [doubled, if_neg (h c (by simp)), ih fun x hx => h x (by simp [hx])]

theorem decimal?_eq_some_iff {cs : List Char} {n : Nat} :
    decimal? cs = some n ↔
      cs ≠ [] ∧ (∀ c ∈ cs, c.isDigit = true) ∧ digitsValue 10 cs = n := by
  simp [decimal?, and_assoc]

theorem hexadecimal?_eq_some_iff {cs : List Char} {n : Nat} :
    hexadecimal? cs = some n ↔
      cs ≠ [] ∧ (∀ c ∈ cs, isHexDigit c = true) ∧ digitsValue 16 cs = n := by
  simp [hexadecimal?, and_assoc]

theorem decimal?_of_isDigit {digits : List Char} (hne : digits ≠ [])
    (hdigits : ∀ c ∈ digits, c.isDigit = true) :
    decimal? digits = some (digitsValue 10 digits) :=
  decimal?_eq_some_iff.2 ⟨hne, hdigits, rfl⟩

theorem decimal?_eq_none {cs : List Char} {c : Char} (hmem : c ∈ cs) (hc : c.isDigit = false) :
    decimal? cs = none := by
  refine Option.eq_none_iff_forall_ne_some.2 fun n hn => ?_
  have hdigit := (decimal?_eq_some_iff.1 hn).2.1 c hmem
  rw [hc] at hdigit
  cases hdigit

end Text

/-- The error with the code of an unknown type in upper case. -/
def EvalError.upperCode : EvalError → EvalError
  | invalidDataType code => invalidDataType (Text.upperAscii code)
  | e => e

/-- A letter or one of `@`, `#`, `$` and `_`, followed by characters of names. -/
structure IsName (chars : List Char) : Prop where
  start : ∃ c cs, chars = c :: cs ∧ isNameStart c = true
  chars : ∀ c ∈ chars, isNameChar c = true

theorem IsName.append {chars : List Char} {c : Char} (h : IsName chars) (hc : isNameChar c = true) :
    IsName (chars ++ [c]) := by
  obtain ⟨⟨d, cs, rfl, hd⟩, hall⟩ := h
  refine ⟨⟨d, cs ++ [c], rfl, hd⟩, fun x hx => ?_⟩
  rcases List.mem_append.1 hx with hx | hx
  · exact hall x hx
  · rw [List.mem_singleton.1 hx]; exact hc

theorem IsName.of_isNameStart {c : Char} (h : isNameStart c = true) : IsName [c] :=
  ⟨⟨c, [], rfl, h⟩, fun x hx => by
    rw [List.mem_singleton.1 hx]; exact isNameChar_of_isNameStart h⟩

theorem IsName.ne_nil {chars : List Char} (h : IsName chars) : chars ≠ [] := by
  obtain ⟨⟨d, cs, rfl, -⟩, -⟩ := h
  exact List.cons_ne_nil d cs

theorem IsName.decimal?_eq {chars : List Char} (h : IsName chars) (rest : List Char) :
    Text.decimal? (chars ++ rest) = none := by
  obtain ⟨⟨d, cs, rfl, hd⟩, -⟩ := h
  simp [Text.decimal?, isDigit_of_isNameStart hd]

theorem IsName.ne_star {chars : List Char} (h : IsName chars) (rest : List Char) :
    chars ++ rest ≠ ['*'] := by
  obtain ⟨⟨d, cs, rfl, hd⟩, -⟩ := h
  intro heq
  rw [List.cons_append, List.cons.injEq] at heq
  exact ne_of_isNameChar (isNameChar_of_isNameStart hd) (by decide) heq.1

/-- The code of a length attribute is a name. -/
theorem isName_lengthCode {c : Char} (h : c = 'L' ∨ c = 'l') :
    IsName [c] ∧ isLengthCode (String.ofList [c]) = true :=
  ⟨.of_isNameStart (by rcases h with rfl | rfl <;> decide), isLengthCode_iff.2 (by simpa using h)⟩

theorem ne_apostrophe_of_isNameChar {c : Char} (h : isNameChar c = true) : (c != '\'') = true :=
  bne_iff_ne.2 (ne_of_isNameChar h (by decide))

namespace Token

open AsmLayout.Expr

/-- The token and the piece are written alike. -/
inductive Agrees : Token → Piece → Prop
  | decimal {digits : List Char} {value : Int64} (hne : digits ≠ [])
      (hdigits : ∀ c ∈ digits, c.isDigit = true)
      (hvalue : int64? (Text.digitsValue 10 digits) = some value) :
      Agrees (.decimal value) (.operand digits)
  | counter : Agrees .counter (.operand ['*'])
  | symbol {chars : List Char} (hname : IsName chars) :
      Agrees (.symbol (String.ofList chars)) (.operand chars)
  | lengthOf {code field : List Char} (hname : IsName code)
      (hfield : ∀ c ∈ field, isNameChar c = true) :
      Agrees (Scanner.quoted code field) (.operand (code ++ '\'' :: field))
  | literal {code payload : List Char} (hname : IsName code) :
      Agrees (Scanner.quoted code payload)
        (.operand (code ++ '\'' :: (Text.doubled payload ++ ['\''])))
  | operator (sign : Char) : Agrees (.operator sign) (.operator sign)
  | leftParen : Agrees .leftParen .leftParen
  | rightParen : Agrees .rightParen .rightParen

variable {L : Lookups} {token : Token} {piece : Piece}

/-- The case of a type code matters in its error only. -/
theorem resolveField_upper (L : Lookups) (code field : List Char) :
    resolveField L (String.ofList (code.map Char.toUpper)) field =
      (resolveField L (String.ofList code) field).mapError EvalError.upperCode := by
  have hempty : (String.ofList (code.map Char.toUpper)).isEmpty = (String.ofList code).isEmpty := by
    rw [Text.isEmpty_ofList, Text.isEmpty_ofList, List.isEmpty_map]
  unfold resolveField
  simp only [TypeCatalog.ofCode?_standard]
  rw [hempty, isLengthCode_toUpper, TypeCode.ofCode?_toUpper]
  split
  · cases L.symbols.displacement (symbolKey field) <;> rfl
  split
  · cases L.symbols.length (symbolKey field) <;> rfl
  cases TypeCode.ofCode? (String.ofList code) with
  | none => rw [← Text.upperAscii_ofList]; rfl
  | some type =>
    unfold selfDefining
    cases type <;> dsimp only <;> first | rfl | (split <;> rfl)

/-- A code with an apostrophe behind it, and the field that follows. -/
theorem resolveText_quoted {code rest field : List Char} (hname : IsName code)
    (hfield : Text.undoubled (withoutClosing rest) = field) :
    resolveText L (code ++ '\'' :: rest) = resolveField L (String.ofList code) field := by
  have hall : ∀ c ∈ code, (c != '\'') = true := fun c hc =>
    ne_apostrophe_of_isNameChar (hname.chars c hc)
  have htake : (code ++ '\'' :: rest).takeWhile (· != '\'') = code := by
    rw [List.takeWhile_append_of_pos hall]; simp
  have hdrop : (code ++ '\'' :: rest).dropWhile (· != '\'') = '\'' :: rest := by
    rw [List.dropWhile_append_of_pos hall]; simp
  unfold resolveText
  rw [hname.decimal?_eq, if_neg (hname.ne_star _)]
  simp only [hdrop, htake, hfield]

theorem resolveText_name {chars : List Char} (hname : IsName chars) :
    resolveText L chars = resolveField L "" chars := by
  have hdrop : chars.dropWhile (· != '\'') = [] := by
    rw [List.dropWhile_eq_nil_iff]
    exact fun c hc => ne_apostrophe_of_isNameChar (hname.chars c hc)
  have hdecimal := hname.decimal?_eq []
  have hstar := hname.ne_star []
  rw [List.append_nil] at hdecimal hstar
  unfold resolveText
  rw [hdecimal, if_neg hstar]
  simp only [hdrop]

theorem undoubled_name {field : List Char} (h : ∀ c ∈ field, isNameChar c = true) :
    Text.undoubled (withoutClosing field) = field := by
  have hne : ∀ c ∈ field, c ≠ '\'' := fun c hc => ne_of_isNameChar (h c hc) (by decide)
  have hlast : field.getLast? ≠ some '\'' := fun hl => hne _ (List.mem_of_getLast? hl) rfl
  rw [withoutClosing, if_neg hlast]
  conv_lhs => rw [← Text.doubled_of_ne hne]
  exact Text.undoubled_doubled field

theorem undoubled_payload (payload : List Char) :
    Text.undoubled (withoutClosing (Text.doubled payload ++ ['\''])) = payload := by
  rw [withoutClosing, if_pos (by simp), List.dropLast_concat]
  exact Text.undoubled_doubled payload

/-- What agrees stands for the same term, or fails alike. -/
theorem Agrees.resolve (h : Agrees token piece) (L : Lookups) :
    resolveToken L token = (resolvePiece L piece).mapError EvalError.upperCode := by
  have hoperand : ∀ {r r' : Except EvalError Operand}, r' = r.mapError EvalError.upperCode →
      (do .ok (.operand (← r')) : Except EvalError Term) =
        (do .ok (.operand (← r)) : Except EvalError Term).mapError EvalError.upperCode := by
    rintro r - rfl
    cases r <;> rfl
  cases h with
  | @decimal digits value hne hdigits hvalue =>
    simp only [resolveToken, resolvePiece, resolveText, Text.decimal?_of_isDigit hne hdigits, hvalue]
    rfl
  | counter => rfl
  | symbol hname =>
    refine hoperand ?_
    rw [resolveText_name hname, String.toList_ofList]
    exact resolveField_upper L [] _
  | lengthOf hname hfield =>
    refine hoperand ?_
    rw [resolveText_quoted hname (undoubled_name hfield), String.toList_ofList, resolveField_upper]
  | literal hname =>
    refine hoperand ?_
    rw [resolveText_quoted hname (undoubled_payload _), String.toList_ofList, resolveField_upper]
  | operator sign => rfl
  | leftParen => rfl
  | rightParen => rfl

theorem mapM_resolveToken {tokens : List Token} {pieces : List Piece}
    (h : List.Forall₂ Agrees tokens pieces) (L : Lookups) :
    tokens.mapM (resolveToken L) =
      (pieces.mapM (resolvePiece L)).mapError EvalError.upperCode := by
  induction h with
  | nil => rfl
  | @cons token piece tokens pieces hone _ ih =>
    rw [List.mapM_cons, List.mapM_cons, hone.resolve L, ih]
    cases resolvePiece L piece with
    | error e => rfl
    | ok term => cases pieces.mapM (resolvePiece L) <;> rfl

end Token
end AsmLayout
