import AsmLayout.Expr.Arithmetic

/-!
# The grammar of expressions

A sum joins products by `+` and `-`, a product joins factors by `*` and `/`, and a factor is an
integer operand or a sum in parentheses, with any number of signs before it. Derivations are trees
(`SumTree`) with the list of terms they derive, their value over the unbounded integers, and the
condition that no sub-expression leaves the range of a word (`SumTree.Exact`).
-/

namespace AsmLayout.Expr

def AddSign.char : AddSign → Char
  | plus => '+'
  | minus => '-'

def MulSign.char : MulSign → Char
  | times => '*'
  | divide => '/'

/-- The value of a sign between two summands. -/
def AddSign.join (sign : AddSign) (a b : Int) : Int :=
  match sign with
  | plus => a + b
  | minus => a - b

/-- The value of a sign before a factor. -/
def AddSign.before (sign : AddSign) (a : Int) : Int :=
  match sign with
  | plus => a
  | minus => -a

/-- The value of a sign between two factors. Division truncates toward zero. -/
def MulSign.join (sign : MulSign) (a b : Int) : Int :=
  match sign with
  | times => a * b
  | divide => a.tdiv b

theorem AddSign.char_of_ofChar? {c : Char} {sign : AddSign} (h : AddSign.ofChar? c = some sign) :
    c = sign.char := by
  unfold AddSign.ofChar? at h
  split at h <;> cases h <;> rfl

theorem MulSign.char_of_ofChar? {c : Char} {sign : MulSign} (h : MulSign.ofChar? c = some sign) :
    c = sign.char := by
  unfold MulSign.ofChar? at h
  split at h <;> cases h <;> rfl

mutual

/-- Products joined by signs, from left to right. -/
inductive SumTree
  | product (p : ProductTree)
  | join (left : SumTree) (sign : AddSign) (right : ProductTree)

/-- Factors joined by signs, from left to right. -/
inductive ProductTree
  | factor (f : FactorTree)
  | join (left : ProductTree) (sign : MulSign) (right : FactorTree)

/-- An integer operand or a sum in parentheses, behind signs. -/
inductive FactorTree
  | operand (n : Int64) (type : Option TypeCode)
  | parens (e : SumTree)
  | signed (sign : AddSign) (f : FactorTree)

end

mutual

/-- The terms that a tree derives. -/
def SumTree.terms : SumTree → List Term
  | .product p => p.terms
  | .join left sign right => left.terms ++ .operator sign.char :: right.terms

def ProductTree.terms : ProductTree → List Term
  | .factor f => f.terms
  | .join left sign right => left.terms ++ .operator sign.char :: right.terms

def FactorTree.terms : FactorTree → List Term
  | .operand n type => [.operand ⟨.int n, type⟩]
  | .parens e => .leftParen :: (e.terms ++ [.rightParen])
  | .signed sign f => .operator sign.char :: f.terms

end

mutual

/-- The value of a tree over the unbounded integers. -/
def SumTree.value : SumTree → Int
  | .product p => p.value
  | .join left sign right => sign.join left.value right.value

def ProductTree.value : ProductTree → Int
  | .factor f => f.value
  | .join left sign right => sign.join left.value right.value

def FactorTree.value : FactorTree → Int
  | .operand n _ => n.toInt
  | .parens e => e.value
  | .signed sign f => sign.before f.value

end

/-- The integer is the value of a 64-bit word. -/
def IsWord (n : Int) : Prop := -9223372036854775808 ≤ n ∧ n ≤ 9223372036854775807

mutual

/-- The values of all sub-expressions are words, and no divisor is zero. -/
def SumTree.Exact : SumTree → Prop
  | .product p => p.Exact
  | .join left sign right => left.Exact ∧ right.Exact ∧ IsWord (sign.join left.value right.value)

def ProductTree.Exact : ProductTree → Prop
  | .factor f => f.Exact
  | .join left sign right => left.Exact ∧ right.Exact ∧
      (sign = .divide → right.value ≠ 0) ∧ IsWord (sign.join left.value right.value)

def FactorTree.Exact : FactorTree → Prop
  | .operand _ _ => True
  | .parens e => e.Exact
  | .signed sign f => f.Exact ∧ IsWord (sign.before f.value)

end

mutual

theorem SumTree.text_notMem (e : SumTree) (s : String) (type : Option TypeCode) :
    .operand ⟨.text s, type⟩ ∉ e.terms := by
  cases e with
  | product p => exact p.text_notMem s type
  | join left sign right =>
    rw [SumTree.terms, List.mem_append, List.mem_cons]
    rintro (h | h | h)
    · exact left.text_notMem s type h
    · cases h
    · exact right.text_notMem s type h

theorem ProductTree.text_notMem (p : ProductTree) (s : String) (type : Option TypeCode) :
    .operand ⟨.text s, type⟩ ∉ p.terms := by
  cases p with
  | factor f => exact f.text_notMem s type
  | join left sign right =>
    rw [ProductTree.terms, List.mem_append, List.mem_cons]
    rintro (h | h | h)
    · exact left.text_notMem s type h
    · cases h
    · exact right.text_notMem s type h

theorem FactorTree.text_notMem (f : FactorTree) (s : String) (type : Option TypeCode) :
    .operand ⟨.text s, type⟩ ∉ f.terms := by
  cases f with
  | operand n t => simp [FactorTree.terms]
  | parens e =>
    rw [FactorTree.terms, List.mem_cons, List.mem_append, List.mem_singleton]
    rintro (h | h | h)
    · cases h
    · exact e.text_notMem s type h
    · cases h
  | signed sign f =>
    rw [FactorTree.terms, List.mem_cons]
    rintro (h | h)
    · cases h
    · exact f.text_notMem s type h

end

end AsmLayout.Expr
