import AsmLayout.TypeCode

/-!
# Terms

An expression is reduced as a list of terms: operands that already have their value, arithmetic
signs and parentheses.
-/

namespace AsmLayout

/-- The value of an operand. Text comes from character terms and takes no part in arithmetic. -/
inductive Value
  | int (n : Int64)
  | text (s : String)
  deriving DecidableEq, Repr

namespace Value

def render : Value → String
  | int n => toString n.toInt
  | text s => "C'" ++ s ++ "'"

def int? : Value → Option Int64
  | int n => some n
  | text _ => none

end Value

/-- A value with the type of the self-defining term it was written as, if it was one. -/
structure Operand where
  value : Value
  type : Option TypeCode
  deriving DecidableEq, Repr

/-- An operand that is a plain number. -/
def Operand.int (n : Int64) : Operand := ⟨.int n, none⟩

/-- A term of an expression. -/
inductive Term
  | operand (operand : Operand)
  | operator (sign : Char)
  | leftParen
  | rightParen
  deriving DecidableEq, Repr

/-- The term as messages name it. -/
def Term.describe : Term → String
  | operand o => s!"operand {o.value.render}"
  | operator sign => "operator '" ++ sign.toString ++ "'"
  | leftParen => "'('"
  | rightParen => "')'"

end AsmLayout
