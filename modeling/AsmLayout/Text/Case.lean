import AsmLayout.Text.CaseTable

/-!
# Letter case

`Text.upper` is full upper-casing: every character is replaced by its upper-case form, which may
be several characters long (`ß` becomes `SS`). `Text.sameAsciiLetters` compares two texts without
regard to the case of ASCII letters only.
-/

namespace AsmLayout.Text

/-- The upper-case form of a character. -/
def upperChar (c : Char) : List Char :=
  if c.toNat < 0x80 then [c.toUpper]
  else match caseExpansions.lookup c.toNat with
    | some codes => codes.map Char.ofNat
    | none => match caseRuns.find? (·.covers c.toNat) with
      | some run => [Char.ofNat (c.toNat + run.shift).toNat]
      | none => [c]

/-- The upper-case form of a text. -/
def upper (s : String) : String := String.ofList (s.toList.flatMap upperChar)

/-- The text with its ASCII letters in upper case and all else as it is. -/
def upperAscii (s : String) : String := String.ofList (s.toList.map Char.toUpper)

/-- Whether two texts differ at most in the case of ASCII letters. -/
def sameAsciiLetters (s t : String) : Bool := upperAscii s == upperAscii t

end AsmLayout.Text
