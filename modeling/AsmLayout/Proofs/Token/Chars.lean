import AsmLayout.Expr.Split
import AsmLayout.Proofs.Text.Letters
import AsmLayout.Token.Scan

/-!
# The characters of names

Names are made of ASCII characters that neither the scanner nor the splitter takes for anything
else. Main statement: `Expr.Splitter.stepOutside_of_isNameChar`.
-/

namespace AsmLayout

variable {c : Char}

theorem isNameChar_ascii (h : isNameChar c = true) : c.toNat < 0x80 := by
  simp only [isNameChar, Char.isAlphanum, Char.isAlpha, Char.isUpper, Char.isLower, Char.isDigit,
    Bool.or_eq_true, Bool.and_eq_true, decide_eq_true_eq, beq_iff_eq, ge_iff_le,
    UInt32.le_iff_toNat_le] at h
  have hval : c.toNat = c.val.toNat := rfl
  rcases h with (((((((⟨-, h⟩ | ⟨-, h⟩) | ⟨-, h⟩) | rfl) | rfl) | rfl) | rfl) | rfl) | rfl
  · exact hval ▸ Nat.lt_of_le_of_lt h (by decide)
  · exact hval ▸ Nat.lt_of_le_of_lt h (by decide)
  · exact hval ▸ Nat.lt_of_le_of_lt h (by decide)
  all_goals decide

theorem isBlank_of_isNameChar (h : isNameChar c = true) : Text.isBlank c = false :=
  Text.forall_ascii (P := fun c => isNameChar c = true → Text.isBlank c = false) (by decide)
    (isNameChar_ascii h) h

theorem isNameChar_toUpper (c : Char) : isNameChar c.toUpper = isNameChar c :=
  Text.comp_toUpper (by decide) c

theorem isNameStart_toUpper (c : Char) : isNameStart c.toUpper = isNameStart c :=
  Text.comp_toUpper (by decide) c

theorem isBlank_of_isSpace (h : isSpace c = true) : Text.isBlank c = true := by
  simp only [isSpace, Bool.or_eq_true, beq_iff_eq] at h
  rcases h with rfl | rfl <;> decide

theorem isNameChar_of_isDigit (h : c.isDigit = true) : isNameChar c = true := by
  simp [isNameChar, Char.isAlphanum, h]

theorem isNameChar_of_isNameStart (h : isNameStart c = true) : isNameChar c = true := by
  simp only [isNameStart, Bool.or_eq_true] at h
  simp only [isNameChar, Char.isAlphanum, Bool.or_eq_true]
  rcases h with (((h | h) | h) | h) | h <;> simp [h]

theorem ne_of_isNameChar {d : Char} (h : isNameChar c = true) (hd : isNameChar d = false) :
    c ≠ d := by
  rintro rfl
  rw [h] at hd
  cases hd

theorem isDigit_of_isNameStart (h : isNameStart c = true) : c.isDigit = false :=
  Text.forall_ascii (P := fun c => isNameStart c = true → c.isDigit = false) (by decide)
    (isNameChar_ascii (isNameChar_of_isNameStart h)) h

namespace Expr.Splitter

variable {pieces : List Piece} {current : List Char}

/-- A character of a name is taken as it comes. -/
theorem stepOutside_of_isNameChar (h : isNameChar c = true) :
    stepOutside pieces current c = ⟨pieces, current ++ [c], .outside⟩ := by
  have hne : ∀ d, isNameChar d = false → (c == d) = false := fun d hd =>
    beq_false_of_ne (ne_of_isNameChar h hd)
  unfold stepOutside
  simp [hne '\'' (by decide), hne '(' (by decide), hne ')' (by decide), hne '*' (by decide),
    hne '+' (by decide), hne '-' (by decide), hne '/' (by decide), isBlank_of_isNameChar h]

theorem stepOutside_of_isBlank (h : Text.isBlank c = true) :
    stepOutside pieces current c = ⟨flushed pieces current, [], .outside⟩ := by
  have hne : ∀ d, Text.isBlank d = false → (c == d) = false := by
    intro d hd
    refine beq_false_of_ne ?_
    rintro rfl
    rw [h] at hd
    cases hd
  unfold stepOutside
  simp [hne '\'' (by decide), hne '(' (by decide), hne ')' (by decide), hne '*' (by decide),
    hne '+' (by decide), hne '-' (by decide), hne '/' (by decide), h]

end Expr.Splitter
end AsmLayout
