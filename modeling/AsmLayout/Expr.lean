import AsmLayout.Expr.Reduce
import AsmLayout.Expr.Resolve

/-!
# Evaluating operands

The two entry points of the evaluator. `Expr.evaluate` takes an operand text and gives a value with
the type of its last self-defining term; `Expr.evaluateTokens` takes tokens and gives a number. In
both, every operand gets its value first, from left to right, and the terms are reduced afterwards.
-/

namespace AsmLayout.Expr

/-- The reduction of a list of terms, with its failure as an evaluation error. -/
def reduceTerms (terms : List Term) : Except EvalError Operand :=
  (reduce terms).mapError .evaluationFailed

/-- The value of an operand text. -/
def evaluate [TypeCatalog] (lookups : Lookups) (text : String) : Except EvalError Operand :=
  let text := Text.strip text.toList
  match split text with
  | none => .error (.evaluationFailed (.unterminatedLiteral (String.ofList text)))
  | some pieces => do reduceTerms (← pieces.mapM (resolvePiece lookups))

/-- The value of a list of tokens, which must be a number. -/
def evaluateTokens [TypeCatalog] (lookups : Lookups) (tokens : List Token) :
    Except EvalError Int64 := do
  let operand ← reduceTerms (← tokens.mapM (resolveToken lookups))
  match operand.value with
  | .int n => .ok n
  | .text s => .error (.notANumber s)

end AsmLayout.Expr
