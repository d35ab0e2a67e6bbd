import AsmLayout.Text.CodeRanges

/-!
# White space

`Text.isBlank` is the Unicode property White_Space, and `Text.trim` takes such characters off both
ends of a text. Names, operands and directives are trimmed before they are read.
-/

namespace AsmLayout.Text

/-- The characters with the property White_Space. -/
def blanks : CodeRanges :=
  ⟨[(0x9, 0xD), (0x20, 0x20), (0x85, 0x85), (0xA0, 0xA0), (0x1680, 0x1680), (0x2000, 0x200A),
    (0x2028, 0x2029), (0x202F, 0x202F), (0x205F, 0x205F), (0x3000, 0x3000)]⟩

def isBlank (c : Char) : Bool := blanks.covers c

/-- The characters without the white space at the end. -/
def dropTrailing (cs : List Char) : List Char := (cs.reverse.dropWhile isBlank).reverse

/-- The characters without the white space at either end. -/
def strip (cs : List Char) : List Char := dropTrailing (cs.dropWhile isBlank)

/-- The text without the white space at either end. -/
def trim (s : String) : String := String.ofList (strip s.toList)

/-- Whether a text holds nothing but white space. -/
def isBlankText (s : String) : Bool := s.toList.all isBlank

end AsmLayout.Text
