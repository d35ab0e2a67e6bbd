import AsmLayout.Text.Case

/-!
# Storage types

The catalog of type codes that a `DS` or `DC` operand and a self-defining term may name, with the
byte size that serves both as default length and as alignment. Operands are read against any
`TypeCatalog`; `TypeCatalog.standard` is the one of every layout.
-/

namespace AsmLayout

/-- A storage type code. -/
inductive TypeCode
  /-- Hexadecimal. -/
  | x
  /-- Character. -/
  | c
  /-- Halfword fixed-point. -/
  | h
  /-- Fullword fixed-point. -/
  | f
  /-- Long floating-point. -/
  | d
  /-- Doubleword fixed-point. -/
  | fd
  /-- Binary. -/
  | b
  /-- Packed decimal. -/
  | p
  /-- Zoned decimal. -/
  | z
  /-- Address. -/
  | a
  /-- Halfword address. -/
  | y
  /-- Doubleword address. -/
  | ad
  /-- External address. -/
  | v
  /-- Base and displacement address. -/
  | s
  deriving DecidableEq, Repr

namespace TypeCode

def all : List TypeCode := [x, c, h, f, d, fd, b, p, z, a, y, ad, v, s]

/-- The code as it is written. -/
def code : TypeCode → String
  | x => "X"
  | c => "C"
  | h => "H"
  | f => "F"
  | d => "D"
  | fd => "FD"
  | b => "B"
  | p => "P"
  | z => "Z"
  | a => "A"
  | y => "Y"
  | ad => "AD"
  | v => "V"
  | s => "S"

/-- The type with a given code, in either case. -/
def ofCode? (text : String) : Option TypeCode := all.find? fun t => t.code == Text.upperAscii text

/-- Bytes of one element, and the boundary it is aligned to. -/
def byteSize : TypeCode → UInt32
  | x | c | b | p | z => 1
  | h | y | s => 2
  | f | a | v => 4
  | d | fd | ad => 8

end TypeCode

/-- What an evaluation takes to be the type codes, and the bytes of one element of each type. -/
class TypeCatalog where
  ofCode? : String → Option TypeCode
  byteSize : TypeCode → UInt32

/-- The fixed catalog. -/
instance TypeCatalog.standard : TypeCatalog := ⟨TypeCode.ofCode?, TypeCode.byteSize⟩

theorem TypeCatalog.ofCode?_standard (text : String) :
    TypeCatalog.ofCode? text = TypeCode.ofCode? text := rfl

/-- Whether the code before an apostrophe asks for the length of a symbol. -/
def isLengthCode (text : String) : Bool := Text.sameAsciiLetters text "L"

end AsmLayout
