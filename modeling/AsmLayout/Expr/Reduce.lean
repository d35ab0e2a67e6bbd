import AsmLayout.Expr.Arithmetic

/-!
# Reducing an expression

`Expr.reduce` computes the value of a list of terms under the usual grammar: sums of products of
signed factors, a factor being an operand or a sum in parentheses. It is a machine that takes one
term at a time. Every open parenthesis holds a `Level`, the arithmetic that waits for the factor to
come; a value is combined with what waits for it as soon as it is complete, and the pending sum
before the term that ends its last product is judged.

A lone operand is its own result, so that a character term may stand alone.
-/

namespace AsmLayout.Expr

/-- The arithmetic before a factor that is still to come, since the last open parenthesis. -/
structure Level where
  sum : Option (Int64 × AddSign)
  product : Option (Int64 × MulSign)
  /-- The minus signs directly before the factor. -/
  minuses : Nat
  deriving DecidableEq, Repr

def Level.empty : Level := ⟨none, none, 0⟩

/-- What the next term is read as. -/
inductive Phase
  /-- A factor is due. -/
  | factor (level : Level)
  /-- A product is complete, unless a further factor joins it. -/
  | product (sum : Option (Int64 × AddSign)) (value : Int64)
  deriving DecidableEq, Repr

/-- The state of the reduction after some terms. -/
structure Reduction where
  /-- The levels around the open parentheses, the innermost first. -/
  outer : List Level
  phase : Phase
  /-- The type of the last operand that has one. -/
  type : Option TypeCode
  /-- The number of terms taken. -/
  index : Nat
  deriving DecidableEq, Repr

namespace Reduction

def start : Reduction := ⟨[], .factor .empty, none, 0⟩

/-- The product that a factor completes. -/
def multiplied (level : Level) (n : Int64) : Except Failure Int64 := do
  let n ← negated level.minuses n
  match level.product with
  | none => .ok n
  | some (left, sign) => sign.apply left n

/-- The sum that a product completes. -/
def added (sum : Option (Int64 × AddSign)) (n : Int64) : Except Failure Int64 :=
  match sum with
  | none => .ok n
  | some (left, sign) => sign.apply left n

/-- The state once a factor has its value. -/
def supply (s : Reduction) (outer : List Level) (level : Level) (n : Int64) :
    Except Failure Reduction := do
  let value ← multiplied level n
  .ok { s with outer, phase := .product level.sum value, index := s.index + 1 }

/-- A term where a factor is due. -/
def stepFactor (s : Reduction) (level : Level) (term : Term) : Except Failure Reduction :=
  match term with
  | .operand ⟨.int n, type⟩ => supply { s with type := type.or s.type } s.outer level n
  | .operand ⟨.text t, _⟩ => .error (.textInArithmetic t)
  | .operator '+' => .ok { s with index := s.index + 1 }
  | .operator '-' =>
    .ok { s with
      phase := .factor { level with minuses := level.minuses + 1 }
      index := s.index + 1 }
  | .leftParen =>
    .ok { s with outer := level :: s.outer, phase := .factor .empty, index := s.index + 1 }
  | .operator _ | .rightParen => .error (.unexpected term)

/-- A term that does not continue the product before it. -/
def stepSum (s : Reduction) (total : Int64) (term : Term) : Except Failure Reduction :=
  let sign? := match term with
    | .operator c => AddSign.ofChar? c
    | _ => none
  match sign?, s.outer, term with
  | some sign, _, _ =>
    .ok { s with phase := .factor ⟨some (total, sign), none, 0⟩, index := s.index + 1 }
  | none, level :: outer, .rightParen => supply s outer level total
  | none, _ :: _, _ => .error .missingRightParen
  | none, [], _ => .error (.unexpectedAt term s.index)

/-- A term after a complete factor. -/
def stepProduct (s : Reduction) (sum : Option (Int64 × AddSign)) (value : Int64) (term : Term) :
    Except Failure Reduction :=
  let sign? := match term with
    | .operator c => MulSign.ofChar? c
    | _ => none
  match sign? with
  | some sign =>
    .ok { s with phase := .factor ⟨sum, some (value, sign), 0⟩, index := s.index + 1 }
  | none => do stepSum s (← added sum value) term

def step (s : Reduction) (term : Term) : Except Failure Reduction :=
  match s.phase with
  | .factor level => stepFactor s level term
  | .product sum value => stepProduct s sum value term

/-- The operand that the terms make, once there are no more. -/
def finish (s : Reduction) : Except Failure Operand :=
  match s.phase with
  | .factor _ => .error .unexpectedEnd
  | .product sum value => do
    let total ← added sum value
    if s.outer.isEmpty then .ok ⟨.int total, s.type⟩ else .error .missingRightParen

end Reduction

/-- The operand that a list of terms makes. -/
def reduce (terms : List Term) : Except Failure Operand :=
  match terms with
  | [] => .error .emptyExpression
  | [.operand o] => .ok o
  | _ => do (← terms.foldlM Reduction.step .start).finish

end AsmLayout.Expr
