import AsmLayout.Expr.Error
import AsmLayout.Expr.Split
import AsmLayout.Lookups
import AsmLayout.Text.Apostrophe
import AsmLayout.Text.Numeral
import AsmLayout.Token

/-!
# Values of operands

How a single operand gets its value, from its text (`Expr.resolveText`) or from its token
(`Expr.resolveToken`). Both end in `Expr.resolveField`, which knows what a type code makes of the
field behind it: no code asks for the displacement of a symbol and `L` for its length, `X` and `C`
read hexadecimal digits and text, and every other type reads a decimal number.
-/

namespace AsmLayout.Expr

/-- The name that a field refers to: labels carry no `&` and nothing after it. -/
def symbolKey (field : List Char) : String := String.ofList (field.takeWhile (· != '&'))

/-- The value of a self-defining term of type `type`. -/
def selfDefining (type : TypeCode) (field : List Char) : Except EvalError Value :=
  match type with
  | .c => .ok (.text (String.ofList field))
  | .x =>
    match (Text.hexadecimal? field).bind fun n => int64? n with
    | some n => .ok (.int n)
    | none => .error (.invalidHexLiteral (String.ofList field))
  | _ =>
    match (Text.signedDecimal? field).bind int64? with
    | some n => .ok (.int n)
    | none => .error (.notANumber (String.ofList field))

/-- The operand that a type code and the field behind it stand for. -/
def resolveField [TypeCatalog] (lookups : Lookups) (code : String) (field : List Char) :
    Except EvalError Operand :=
  if code.isEmpty then
    match lookups.symbols.displacement (symbolKey field) with
    | some n => .ok (.int n)
    | none => .error (.invalidSymbolKey (symbolKey field))
  else if isLengthCode code then
    match lookups.symbols.length (symbolKey field) with
    | some n => .ok (.int n)
    | none => .error (.invalidLengthKey (symbolKey field))
  else
    match TypeCatalog.ofCode? code with
    | some type => do .ok ⟨← selfDefining type field, some type⟩
    | none => .error (.invalidDataType code)

/-- The characters without one apostrophe at the end. -/
def withoutClosing (cs : List Char) : List Char :=
  if cs.getLast? = some '\'' then cs.dropLast else cs

/-- The operand that an operand text stands for. -/
def resolveText [TypeCatalog] (lookups : Lookups) (text : List Char) :
    Except EvalError Operand :=
  match Text.decimal? text with
  | some n =>
    match int64? n with
    | some n => .ok (.int n)
    | none => .error (.notANumber (String.ofList text))
  | none =>
    if text = ['*'] then .ok (.int lookups.counter)
    else match text.dropWhile (· != '\'') with
      | [] => resolveField lookups "" text
      | _ :: rest =>
        resolveField lookups (String.ofList (text.takeWhile (· != '\'')))
          (Text.undoubled (withoutClosing rest))

/-- The term that a piece of an operand text stands for. -/
def resolvePiece [TypeCatalog] (lookups : Lookups) : Piece → Except EvalError Term
  | .operand text => do .ok (.operand (← resolveText lookups text))
  | .operator sign => .ok (.operator sign)
  | .leftParen => .ok .leftParen
  | .rightParen => .ok .rightParen

/-- The term that a token stands for. -/
def resolveToken [TypeCatalog] (lookups : Lookups) : Token → Except EvalError Term
  | .decimal value => .ok (.operand (.int value))
  | .counter => .ok (.operand (.int lookups.counter))
  | .register name number =>
    match lookups.registers with
    | none => .ok (.operand (.int (Int64.ofNat number.toNat)))
    | some find =>
      match find name with
      | some number => .ok (.operand (.int (Int64.ofNat number.toNat)))
      | none => .error (.invalidSymbolKey name)
  | .symbol name => do .ok (.operand (← resolveField lookups "" name.toList))
  | .literal code payload => do .ok (.operand (← resolveField lookups code payload.toList))
  | .operator sign => .ok (.operator sign)
  | .leftParen => .ok .leftParen
  | .rightParen => .ok .rightParen
  | .comma => .error (.evaluationFailed .commaInExpression)

end AsmLayout.Expr
