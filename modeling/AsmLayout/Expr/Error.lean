import AsmLayout.ErrorKind
import AsmLayout.Expr.Term
import AsmLayout.Text.Quoted

/-!
# Evaluation errors

`EvalError` says why an operand has no value. A name that is not defined is a *forward reference*:
the only kind of failure that a later attempt, with more symbols defined, may mend.
-/

namespace AsmLayout

/-- Why an expression, all of whose names are known, has no usable value. -/
inductive Failure
  | emptyExpression
  | commaInExpression
  | unterminatedLiteral (operand : String)
  | unexpectedEnd
  | missingRightParen
  /-- A term where an operand should begin. -/
  | unexpected (term : Term)
  /-- A term after a complete expression; terms count from zero. -/
  | unexpectedAt (term : Term) (index : Nat)
  | overflow
  | divisionByZero
  | textInArithmetic (text : String)
  | duplicationOutOfRange (n : Int64)
  | lengthOutOfRange (n : Int64)
  | unbalancedParens (operand : String)
  | alignmentOverflow (counter : Int64) (boundary : UInt32)
  | storageOverflow (duplication length : UInt32) (displacement : Int64)
  deriving DecidableEq, Repr

def Failure.message : Failure → String
  | emptyExpression => "empty expression"
  | commaInExpression => "unexpected ',' in expression"
  | unterminatedLiteral operand => s!"unterminated literal in {operand}"
  | unexpectedEnd => "unexpected end of expression"
  | missingRightParen => "missing ')'"
  | unexpected term => s!"unexpected {term.describe}"
  | unexpectedAt term index => s!"unexpected {term.describe} at term {index}"
  | overflow => "arithmetic overflow"
  | divisionByZero => "division by zero"
  | textInArithmetic text => "character term C'" ++ text ++ "' in arithmetic"
  | duplicationOutOfRange n => s!"duplication factor out of range: {n.toInt}"
  | lengthOutOfRange n => s!"length out of range: {n.toInt}"
  | unbalancedParens operand => s!"unbalanced parentheses in {operand}"
  | alignmentOverflow counter boundary =>
    s!"location counter overflow aligning {counter.toInt} to {boundary.toNat}"
  | storageOverflow duplication length displacement =>
    s!"{duplication.toNat} x {length.toNat} bytes at {displacement.toInt} overflows the " ++
      "location counter"

/-- Why an operand could not be evaluated. -/
inductive EvalError
  | invalidSymbolKey (name : String)
  | invalidLengthKey (name : String)
  | invalidDataType (code : String)
  | invalidHexLiteral (text : String)
  | notANumber (text : String)
  | evaluationFailed (failure : Failure)
  deriving DecidableEq, Repr

namespace EvalError

def kind : EvalError → ErrorKind
  | invalidSymbolKey _ => .invalidSymbolKey
  | invalidLengthKey _ => .invalidLengthKey
  | invalidDataType _ => .invalidDataType
  | invalidHexLiteral _ => .invalidHexLiteral
  | notANumber _ => .notANumber
  | evaluationFailed _ => .evaluationFailed

def message : EvalError → String
  | invalidSymbolKey name => s!"undefined symbol: {name}"
  | invalidLengthKey name => s!"no length attribute for symbol: {name}"
  | invalidDataType code => s!"invalid data type: {Text.quoted code}"
  | invalidHexLiteral text => s!"invalid hex literal: {Text.quoted text}"
  | notANumber text => s!"not a number: {Text.quoted text}"
  | evaluationFailed failure => s!"evaluation failed: {failure.message}"

/-- A stable name for the cause. -/
def code : EvalError → String
  | invalidSymbolKey _ => "layout::invalid_symbol_key"
  | invalidLengthKey _ => "layout::invalid_length_key"
  | invalidDataType _ => "layout::invalid_data_type"
  | invalidHexLiteral _ => "layout::invalid_hex_literal"
  | notANumber _ => "layout::not_a_number"
  | evaluationFailed _ => "layout::evaluation_failed"

/-- Whether the failure is a name that may still be defined later. -/
def isForwardReference : EvalError → Bool
  | invalidSymbolKey _ | invalidLengthKey _ => true
  | _ => false

end EvalError
end AsmLayout
