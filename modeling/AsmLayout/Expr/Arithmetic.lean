import AsmLayout.Expr.Error
import AsmLayout.Text.Numeral

/-!
# Word arithmetic

The arithmetic of expressions: exact on 64-bit words, and a failure where the exact result is no
word. Division truncates toward zero.
-/

namespace AsmLayout.Expr

/-- The word with a given value, if there is one. -/
def word (n : Int) : Except Failure Int64 :=
  match int64? n with
  | some w => .ok w
  | none => .error .overflow

/-- Signs that join the terms of a sum. -/
inductive AddSign
  | plus
  | minus
  deriving DecidableEq, Repr

/-- Signs that join the factors of a product. -/
inductive MulSign
  | times
  | divide
  deriving DecidableEq, Repr

def AddSign.ofChar? : Char → Option AddSign
  | '+' => some plus
  | '-' => some minus
  | _ => none

def MulSign.ofChar? : Char → Option MulSign
  | '*' => some times
  | '/' => some divide
  | _ => none

def AddSign.apply (sign : AddSign) (a b : Int64) : Except Failure Int64 :=
  match sign with
  | plus => word (a.toInt + b.toInt)
  | minus => word (a.toInt - b.toInt)

def MulSign.apply (sign : MulSign) (a b : Int64) : Except Failure Int64 :=
  match sign with
  | times => word (a.toInt * b.toInt)
  | divide => if b.toInt = 0 then .error .divisionByZero else word (a.toInt.tdiv b.toInt)

/-- The value under `count` minus signs, the innermost taken first. -/
def negated (count : Nat) (n : Int64) : Except Failure Int64 :=
  match count with
  | 0 => .ok n
  | count + 1 => do negated count (← word (-n.toInt))

end AsmLayout.Expr
