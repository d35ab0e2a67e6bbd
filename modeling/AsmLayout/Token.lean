import AsmLayout.Text.Apostrophe
import AsmLayout.TypeCode

/-!
# Operand tokens

The tokens of an operand such as `FIELD+L'FIELD*2`, and the text each of them is written with.
-/

namespace AsmLayout

/-- A token of an operand. -/
inductive Token
  /-- A decimal self-defining term. -/
  | decimal (value : Int64)
  /-- A register, by the name it was written with. -/
  | register (name : String) (number : UInt8)
  | symbol (name : String)
  /-- A term with an apostrophe after its type: `X'1F'`, `C'AB'`, `L'FIELD`. -/
  | literal (code payload : String)
  /-- The location counter. -/
  | counter
  /-- An arithmetic sign. The scanner makes only `+`, `-`, `*` and `/`. -/
  | operator (sign : Char)
  | leftParen
  | rightParen
  | comma
  deriving DecidableEq, Repr

namespace Token

/-- Whether the token stands for a value. -/
def isOperand : Token → Bool
  | decimal _ | register _ _ | symbol _ | literal _ _ | counter => true
  | operator _ | leftParen | rightParen | comma => false

/-- The token as it is written. A length attribute has no closing apostrophe. -/
def text : Token → String
  | decimal value => toString value.toInt
  | register name _ => name
  | symbol name => name
  | literal code payload =>
    if isLengthCode code then code ++ "'" ++ payload
    else code ++ "'" ++ String.ofList (Text.doubled payload.toList) ++ "'"
  | counter => "*"
  | operator sign => String.singleton sign
  | leftParen => "("
  | rightParen => ")"
  | comma => ","

end Token

/-- A place where an operand does not divide into tokens. Positions count characters from zero. -/
inductive TokenError
  /-- A name, number or literal opens directly after an operand or a closing parenthesis. -/
  | invalidSeparator (char : Char) (position : Nat)
  /-- A character that opens no token. -/
  | unexpectedChar (char : Char) (position : Nat)
  /-- A literal without a closing apostrophe, or a length attribute without a name. -/
  | unterminatedLiteral (position : Nat)
  /-- A decimal term above the largest 64-bit word. -/
  | decimalOutOfRange (text : String)
  deriving DecidableEq, Repr

namespace TokenError

def message : TokenError → String
  | invalidSeparator char position =>
    "invalid separator before '" ++ char.toString ++ s!"' at position {position}"
  | unexpectedChar char position =>
    "unexpected character '" ++ char.toString ++ s!"' at position {position}"
  | unterminatedLiteral position => s!"unterminated literal starting at position {position}"
  | decimalOutOfRange text => s!"decimal term out of range: {text}"

/-- A stable name for the cause. -/
def code : TokenError → String
  | invalidSeparator _ _ => "layout::lexer::invalid_separator"
  | unexpectedChar _ _ => "layout::lexer::unexpected_char"
  | unterminatedLiteral _ => "layout::lexer::unterminated_literal"
  | decimalOutOfRange _ => "layout::lexer::decimal_out_of_range"

end TokenError
end AsmLayout
