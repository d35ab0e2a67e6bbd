import AsmLayout.Proofs.Text.Upper
import AsmLayout.Text.Apostrophe
import AsmLayout.Text.Numeral
import AsmLayout.TypeCode
import Mathlib

/-!
# ASCII letters in upper case

Reading a text with its ASCII letters in upper case. What white space, digits and apostrophes decide
stays where it is (`strip_toUpper`, `undoubled_toUpper`), and numerals keep their values
(`decimal?_toUpper`, `hexadecimal?_toUpper`, `signedDecimal?_toUpper`).
-/

namespace AsmLayout

namespace Text

variable {c d : Char} {cs : List Char} {p : Char → Bool}

/-- What the ASCII characters keep, all characters keep. -/
theorem comp_toUpper {α : Type} {f : Char → α}
    (h : ∀ n < 0x80, f (Char.ofNat n).toUpper = f (Char.ofNat n)) (c : Char) :
    f c.toUpper = f c := by
  by_cases hc : c.toNat < 0x80
  · exact forall_ascii (P := fun c => f c.toUpper = f c) h hc
  · rw [Char.toUpper_eq_of_not_isLower]
    intro hlower
    simp only [Char.isLower, Bool.and_eq_true, decide_eq_true_eq, UInt32.le_iff_toNat_le] at hlower
    exact hc (Nat.lt_of_le_of_lt hlower.2 (by decide))

theorem isBlank_toUpper (c : Char) : isBlank c.toUpper = isBlank c := comp_toUpper (by decide) c

theorem isDigit_toUpper (c : Char) : c.toUpper.isDigit = c.isDigit := comp_toUpper (by decide) c

theorem isHexDigit_toUpper (c : Char) : isHexDigit c.toUpper = isHexDigit c :=
  comp_toUpper (by decide) c

theorem digitValue_toUpper (c : Char) : digitValue c.toUpper = digitValue c :=
  comp_toUpper (by decide) c

/-- A character that is no letter is not the upper case of another. -/
theorem toUpper_eq_iff (hd : d.isAlpha = false) : c.toUpper = d ↔ c = d := by
  by_cases hc : c.isAlpha = true
  · constructor
    · rintro rfl
      rw [Char.isAlpha_toUpper_eq_isAlpha, hc] at hd
      cases hd
    · rintro rfl
      rw [hc] at hd
      cases hd
  · rw [Char.toUpper_eq_of_not_isLower]
    intro hlower
    exact hc (by simp [Char.isAlpha, hlower])

theorem toUpper_beq (hd : d.isAlpha = false) : (c.toUpper == d) = (c == d) := by
  rw [Bool.eq_iff_iff, beq_iff_eq, beq_iff_eq, toUpper_eq_iff hd]

theorem toUpper_bne (hd : d.isAlpha = false) : (c.toUpper != d) = (c != d) :=
  congrArg not (toUpper_beq hd)

theorem upperAscii_ofList (cs : List Char) :
    upperAscii (String.ofList cs) = String.ofList (cs.map Char.toUpper) := by
  rw [upperAscii, String.toList_ofList]

theorem upperAscii_upperAscii (s : String) : upperAscii (upperAscii s) = upperAscii s := by
  simp only [upperAscii, String.toList_ofList, List.map_map]
  congr 2
  funext c
  exact Char.toUpper_toUpper_eq_toUpper c

theorem takeWhile_toUpper (hp : ∀ c, p c.toUpper = p c) (cs : List Char) :
    (cs.map Char.toUpper).takeWhile p = (cs.takeWhile p).map Char.toUpper := by
  rw [List.takeWhile_map, show p ∘ Char.toUpper = p from funext hp]

theorem dropWhile_toUpper (hp : ∀ c, p c.toUpper = p c) (cs : List Char) :
    (cs.map Char.toUpper).dropWhile p = (cs.dropWhile p).map Char.toUpper := by
  rw [List.dropWhile_map, show p ∘ Char.toUpper = p from funext hp]

theorem all_toUpper (hp : ∀ c, p c.toUpper = p c) (cs : List Char) :
    (cs.map Char.toUpper).all p = cs.all p := by
  rw [List.all_map, show p ∘ Char.toUpper = p from funext hp]

theorem strip_toUpper (cs : List Char) :
    strip (cs.map Char.toUpper) = (strip cs).map Char.toUpper := by
  rw [strip, strip, dropTrailing, dropTrailing, dropWhile_toUpper isBlank_toUpper,
    ← List.map_reverse, dropWhile_toUpper isBlank_toUpper, List.map_reverse]

theorem undoubled_cons (h : c ≠ '\'' ∨ cs.head? ≠ some '\'') :
    undoubled (c :: cs) = c :: undoubled cs := by
  rw [undoubled]
  rintro ds rfl rfl
  simp at h

theorem undoubled_toUpper (cs : List Char) :
    undoubled (cs.map Char.toUpper) = (undoubled cs).map Char.toUpper := by
  have hquote : ∀ {c : Char}, c.toUpper = '\'' ↔ c = '\'' := toUpper_eq_iff (by decide)
  match cs with
  | [] => rfl
  | [c] => rw [List.map_singleton, undoubled_cons (by simp), undoubled_cons (by simp)]; rfl
  | c :: d :: cs =>
    by_cases hpair : c = '\'' ∧ d = '\''
    · obtain ⟨rfl, rfl⟩ := hpair
      show '\'' :: undoubled (cs.map Char.toUpper) = '\'' :: (undoubled cs).map Char.toUpper
      rw [undoubled_toUpper cs]
    · have hne : c ≠ '\'' ∨ (d :: cs).head? ≠ some '\'' := by
        simpa using not_and_or.1 hpair
      have hne' : c.toUpper ≠ '\'' ∨ ((d :: cs).map Char.toUpper).head? ≠ some '\'' := by
        simpa [hquote] using hne
      rw [List.map_cons, undoubled_cons hne', undoubled_toUpper (d :: cs), undoubled_cons hne,
        List.map_cons]

theorem digitsValue_toUpper (base : Nat) (cs : List Char) :
    digitsValue base (cs.map Char.toUpper) = digitsValue base cs := by
  simp only [digitsValue, List.foldl_map, digitValue_toUpper]

theorem decimal?_toUpper (cs : List Char) : decimal? (cs.map Char.toUpper) = decimal? cs := by
  rw [decimal?, decimal?, List.isEmpty_map, all_toUpper isDigit_toUpper, digitsValue_toUpper]

theorem hexadecimal?_toUpper (cs : List Char) :
    hexadecimal? (cs.map Char.toUpper) = hexadecimal? cs := by
  rw [hexadecimal?, hexadecimal?, List.isEmpty_map, all_toUpper isHexDigit_toUpper,
    digitsValue_toUpper]

theorem signedDecimal?_toUpper (cs : List Char) :
    signedDecimal? (cs.map Char.toUpper) = signedDecimal? cs := by
  have hplain : ∀ ds : List Char, ds.head? ≠ some '-' → ds.head? ≠ some '+' →
      signedDecimal? ds = (decimal? ds).map Int.ofNat := by
    intro ds hminus hplus
    unfold signedDecimal?
    split
    · exact absurd rfl hminus
    · exact absurd rfl hplus
    · rfl
  cases cs with
  | nil => rfl
  | cons c cs =>
    by_cases hminus : c = '-'
    · subst hminus
      show signedDecimal? ('-' :: cs.map Char.toUpper) = _
      simp only [signedDecimal?, decimal?_toUpper]
    by_cases hplus : c = '+'
    · subst hplus
      show signedDecimal? ('+' :: cs.map Char.toUpper) = _
      simp only [signedDecimal?, decimal?_toUpper]
    have hupper : ∀ d : Char, d.isAlpha = false → c ≠ d →
        ((c :: cs).map Char.toUpper).head? ≠ some d := by
      intro d hd hne
      rw [List.map_cons, List.head?_cons, Ne, Option.some.injEq, toUpper_eq_iff hd]
      exact hne
    rw [hplain _ (hupper '-' (by decide) hminus) (hupper '+' (by decide) hplus), decimal?_toUpper,
      hplain (c :: cs) (by simpa using hminus) (by simpa using hplus)]

end Text

theorem isLengthCode_toUpper (code : List Char) :
    isLengthCode (String.ofList (code.map Char.toUpper)) = isLengthCode (String.ofList code) := by
  rw [← Text.upperAscii_ofList]
  simp only [isLengthCode, Text.sameAsciiLetters, Text.upperAscii_upperAscii]

theorem lengthLetter_toUpper (c : Char) :
    (c.toUpper == 'L' || c.toUpper == 'l') = (c == 'L' || c == 'l') :=
  Text.comp_toUpper (f := fun c => c == 'L' || c == 'l') (by decide) c

theorem isLengthCode_iff {code : List Char} :
    isLengthCode (String.ofList code) = true ↔ code = ['L'] ∨ code = ['l'] := by
  have hL : Text.upperAscii "L" = String.ofList ['L'] := by decide
  rw [isLengthCode, Text.sameAsciiLetters, beq_iff_eq, hL, Text.upperAscii_ofList, String.ofList_inj]
  constructor
  · intro h
    obtain ⟨c, rfl, hc⟩ := List.map_eq_singleton_iff.1 h
    have hletter := lengthLetter_toUpper c
    rw [hc] at hletter
    simpa using hletter.symm
  · rintro (rfl | rfl) <;> decide

theorem TypeCode.ofCode?_toUpper (code : List Char) :
    ofCode? (String.ofList (code.map Char.toUpper)) = ofCode? (String.ofList code) := by
  rw [← Text.upperAscii_ofList]
  simp only [ofCode?, Text.upperAscii_upperAscii]

end AsmLayout
