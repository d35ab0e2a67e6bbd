import AsmLayout.Proofs.Token.Acceptance

/-!
# Printing tokens

`Token.printed` writes tokens with single blanks between them. Main statement: `Token.scan_printed`
(what the scanner makes of an operand it makes again of these tokens, printed).
-/

namespace AsmLayout

namespace Text

theorem digitValue_of_isDigit {c : Char} (h : c.isDigit = true) :
    digitValue c = c.toNat - '0'.toNat := if_pos h

/-- Decimal digits have the value that they are the numeral of. -/
theorem digitsValue_toDigits (n : Nat) : digitsValue 10 (Nat.toDigits 10 n) = n := by
  have hfold : ∀ (cs : List Char) (m : Nat), (∀ c ∈ cs, c.isDigit = true) →
      cs.foldl (fun n c => n * 10 + digitValue c) m = Nat.ofDigitChars 10 cs m := by
    intro cs
    induction cs with
    | nil => intro m _; rw [Nat.ofDigitChars_nil, List.foldl_nil]
    | cons c cs ih =>
      intro m hall
      rw [List.foldl_cons, ih _ fun d hd => hall d (List.mem_cons_of_mem c hd),
        Nat.ofDigitChars_cons, digitValue_of_isDigit (hall c List.mem_cons_self), Nat.mul_comm]
  rw [digitsValue, hfold _ 0 fun c hc => Nat.isDigit_of_mem_toDigits (by omega) (by omega) hc]
  exact Nat.ofDigitChars_ten_toDigits

end Text

theorem IsName.toUpper {chars : List Char} (h : IsName chars) : IsName (chars.map Char.toUpper) := by
  obtain ⟨⟨c, cs, rfl, hstart⟩, hall⟩ := h
  refine ⟨⟨c.toUpper, cs.map Char.toUpper, rfl, (isNameStart_toUpper c).trans hstart⟩, fun d hd => ?_⟩
  obtain ⟨x, hx, rfl⟩ := List.mem_map.1 hd
  exact (isNameChar_toUpper x).trans (hall x hx)

namespace Token

open Scanner

/-- The tokens as they are written, with single blanks between them. -/
def printed (tokens : List Token) : String := " ".intercalate (tokens.map text)

variable {registers : String → Option UInt8} {tokens before : List Token} {token : Token}
  {spelling cs : List Char}

theorem quoted_toUpper (code payload : List Char) :
    quoted (code.map Char.toUpper) payload = quoted code payload := by
  have htwice : (code.map Char.toUpper).map Char.toUpper = code.map Char.toUpper := by
    rw [List.map_map]
    exact List.map_congr_left fun c _ => Char.toUpper_toUpper_eq_toUpper c
  rw [quoted, htwice, quoted]

theorem text_decimal {value : Int64} {n : Nat} (h : value.toInt = n) :
    (Token.decimal value).text.toList = Nat.toDigits 10 n := by
  have hrepr : toString (n : Int) = String.ofList (Nat.toDigits 10 n) := rfl
  rw [text, h, hrepr, String.toList_ofList]

theorem text_quoted {code payload : List Char} (hcode : ¬ isLengthCode (String.ofList code) = true) :
    (quoted code payload).text.toList =
      code.map Char.toUpper ++ '\'' :: (Text.doubled payload ++ ['\'']) := by
  have hother : ¬ isLengthCode (String.ofList (code.map Char.toUpper)) = true := by
    rwa [isLengthCode_toUpper]
  rw [quoted, text, if_neg hother]
  simp only [String.toList_append, String.toList_ofList]
  rw [List.append_assoc, List.append_assoc]
  rfl

/-- What a token is printed as is one of its spellings. -/
theorem Spells.text (h : Spells registers before token spelling) :
    Spells registers before token token.text.toList := by
  cases h with
  | @decimal _ value hne hdigits hvalue =>
    rw [text_decimal hvalue]
    refine .decimal Nat.toDigits_ne_nil
      (fun c hc => Nat.isDigit_of_mem_toDigits (by omega) (by omega) hc) ?_
    rw [Text.digitsValue_toDigits, hvalue]
  | @register chars number hname hfind =>
    rw [Token.text, String.toList_ofList]
    exact .register hname hfind
  | @symbol chars hname hfind =>
    rw [Token.text, String.toList_ofList]
    exact .symbol hname hfind
  | @lengthOf c field hc hne hfield =>
    have hcode : isLengthCode "L" = true := by decide
    have htext : (Token.literal "L" (String.ofList field)).text.toList = 'L' :: '\'' :: field := by
      rw [Token.text, if_pos hcode]
      simp only [String.toList_append, String.toList_ofList]
      rfl
    rw [htext]
    exact .lengthOf (.inl rfl) hne hfield
  | @literal code payload hname hcode =>
    have hlength : ¬ isLengthCode (String.ofList code) = true :=
      fun h => not_or.2 hcode (isLengthCode_iff.1 h)
    have hupper : ¬ isLengthCode (String.ofList (code.map Char.toUpper)) = true := by
      rwa [isLengthCode_toUpper]
    rw [text_quoted hlength, ← quoted_toUpper]
    exact .literal hname.toUpper (not_or.1 (isLengthCode_iff.not.1 hupper))
  | leftParen => exact .leftParen
  | rightParen => exact .rightParen
  | comma => exact .comma
  | @sign c hc =>
    rw [Token.text, String.toList_singleton]
    exact .sign hc
  | counter hfits => exact .counter hfits
  | times hfits => exact .times hfits

theorem printed_concat (hne : before ≠ []) :
    (printed (before ++ [token])).toList = (printed before).toList ++ ([' '] ++ token.text.toList) := by
  have hmap : before.map text ≠ [] := by simpa using hne
  rw [printed, List.map_append, String.intercalate_append_of_ne_nil hmap (by simp), List.map_cons,
    List.map_nil, String.intercalate_singleton, String.toList_append, String.toList_append,
    List.append_assoc]
  rfl

/-- Tokens that can be written are written by printing them. -/
theorem Written.printed (h : Written registers tokens cs) :
    Written registers tokens (printed tokens).toList := by
  induction h with
  | nil => exact .nil
  | @concat before token text gap spelling hbefore hgap hneeds hspells ih =>
    by_cases hne : before = []
    · subst hne
      have hfree : ¬ NeedsGap [] token := by simp [NeedsGap]
      have hone := Written.concat .nil isGap_nil (fun h => absurd h hfree) hspells.text
      exact hone
    · have hblank : IsGap [' '] := by simp [IsGap, isSpace]
      rw [printed_concat hne]
      exact .concat ih hblank (by simp) hspells.text

/-- The tokens of an operand are the tokens of what they are printed as. -/
theorem scan_printed {operand : String} (h : scan registers operand = .ok tokens) :
    scan registers (printed tokens) = .ok tokens := by
  obtain ⟨text, gap, -, -, hwritten⟩ := written_of_scan h
  exact hwritten.printed.scan isGap_nil (List.append_nil _).symm

/-- Leading zeros, lower-case codes, an apostrophe in a payload and both readings of `*`. -/
theorem scan_printed_product :
    scan (fun _ => none) "007* l'F-(**c'a''b')" = .ok [.decimal 7, .operator '*', .literal "L" "F",
      .operator '-', .leftParen, .counter, .operator '*', .literal "C" "a'b", .rightParen] ∧
    scan (fun _ => none) "7 * L'F - ( * * C'a''b' )" = .ok [.decimal 7, .operator '*',
      .literal "L" "F", .operator '-', .leftParen, .counter, .operator '*', .literal "C" "a'b",
      .rightParen] := by
  have hscan : scan (fun _ => none) "007* l'F-(**c'a''b')" = .ok [.decimal 7, .operator '*',
      .literal "L" "F", .operator '-', .leftParen, .counter, .operator '*', .literal "C" "a'b",
      .rightParen] := by decide +kernel
  have hprinted : printed [.decimal 7, .operator '*', .literal "L" "F", .operator '-', .leftParen,
      .counter, .operator '*', .literal "C" "a'b", .rightParen] = "7 * L'F - ( * * C'a''b' )" := by
    decide +kernel
  exact ⟨hscan, hprinted ▸ scan_printed hscan⟩

end Token
end AsmLayout
