import AsmLayout.Proofs.Expr.Grammar
import AsmLayout.Proofs.Token.Agreement

/-!
# Formulas

A `Formula` is an arithmetic expression as a tree, without parentheses. `Formula.WrittenAs` says how
it is written, with parentheses where precedence and association call for them and wherever else one
likes, and `Formula.value` what it stands for over the unbounded integers. Main statement:
`Formula.exists_writtenAs` (every formula can be written if its leaves can).
-/

namespace AsmLayout.Expr

inductive Leaf
  | constant (n : Int64)
  | symbol (name : String)
  | lengthOf (name : String)
  /-- A self-defining term with the value `n`. -/
  | selfDefining (type : TypeCode) (n : Int64)
  | counter
  deriving DecidableEq, Repr

inductive Formula
  | leaf (leaf : Leaf)
  | signed (sign : AddSign) (e : Formula)
  | sum (left : Formula) (sign : AddSign) (right : Formula)
  | product (left : Formula) (sign : MulSign) (right : Formula)
  deriving DecidableEq, Repr

/-- The value of a leaf, or why it has none. -/
def Leaf.resolve (L : Lookups) : Leaf → Except EvalError Int64
  | constant n | selfDefining _ n => .ok n
  | symbol name =>
    match L.symbols.displacement name with
    | some n => .ok n
    | none => .error (.invalidSymbolKey name)
  | lengthOf name =>
    match L.symbols.length name with
    | some n => .ok n
    | none => .error (.invalidLengthKey name)
  | counter => .ok L.counter

def Leaf.error? (L : Lookups) (l : Leaf) : Option EvalError :=
  match l.resolve L with
  | .ok _ => none
  | .error e => some e

/-- The value of a leaf, zero if it has none. -/
def Leaf.value (L : Lookups) (l : Leaf) : Int :=
  match l.resolve L with
  | .ok n => n.toInt
  | .error _ => 0

namespace Formula

/-- The leaves from left to right. -/
def leaves : Formula → List Leaf
  | leaf l => [l]
  | signed _ e => e.leaves
  | sum left _ right | product left _ right => left.leaves ++ right.leaves

/-- The error of the leftmost name that is not defined. -/
def error? (L : Lookups) (e : Formula) : Option EvalError := e.leaves.findSome? (·.error? L)

/-- The value over the unbounded integers. -/
def value (L : Lookups) : Formula → Int
  | leaf l => l.value L
  | signed sign e => sign.before (e.value L)
  | sum left sign right => sign.join (left.value L) (right.value L)
  | product left sign right => sign.join (left.value L) (right.value L)

/-- The values of all sub-expressions are words, and no divisor is zero. -/
def Exact (L : Lookups) : Formula → Prop
  | leaf _ => True
  | signed sign e => e.Exact L ∧ IsWord (sign.before (e.value L))
  | sum left sign right =>
    left.Exact L ∧ right.Exact L ∧ IsWord (sign.join (left.value L) (right.value L))
  | product left sign right => left.Exact L ∧ right.Exact L ∧
      (sign = .divide → right.value L ≠ 0) ∧ IsWord (sign.join (left.value L) (right.value L))

end Formula

/-- The ways to write a leaf. Character terms are no numbers and have none. -/
inductive Leaf.Spells : Leaf → List Char → Prop
  | constant {n : Int64} {digits : List Char} (hne : digits ≠ [])
      (hdigits : ∀ c ∈ digits, c.isDigit = true) (hn : n.toInt = Text.digitsValue 10 digits) :
      Spells (.constant n) digits
  | symbol {name : String} (hname : IsName name.toList) (hsuffix : '&' ∉ name.toList) :
      Spells (.symbol name) name.toList
  | lengthOf {c : Char} {name : String} (hc : c = 'L' ∨ c = 'l') (hname : IsName name.toList)
      (hsuffix : '&' ∉ name.toList) : Spells (.lengthOf name) (c :: '\'' :: name.toList)
  | hexadecimal {code digits : List Char} {n : Int64}
      (hcode : TypeCode.ofCode? (String.ofList code) = some .x) (hne : digits ≠ [])
      (hdigits : ∀ c ∈ digits, Text.isHexDigit c = true)
      (hn : n.toInt = Text.digitsValue 16 digits) :
      Spells (.selfDefining .x n) (code ++ '\'' :: (digits ++ ['\'']))
  | decimal {code digits : List Char} {type : TypeCode} {n : Int64} {sign : Option AddSign}
      (hcode : TypeCode.ofCode? (String.ofList code) = some type) (htype : type ≠ .x ∧ type ≠ .c)
      (hne : digits ≠ []) (hdigits : ∀ c ∈ digits, c.isDigit = true)
      (hn : n.toInt = (sign.getD .plus).before (Text.digitsValue 10 digits)) :
      Spells (.selfDefining type n)
        (code ++ '\'' :: ((sign.map AddSign.char).toList ++ digits ++ ['\'']))
  | counter : Spells .counter ['*']

/-- Where a formula stands. -/
inductive Place
  /-- As a whole, in parentheses or before a sign of a sum. -/
  | sum
  /-- After a sign of a sum or before a sign of a product. -/
  | product
  /-- After a sign of a product or behind a sign of its own. -/
  | factor
  deriving DecidableEq, Repr

/-- The ways to write a formula at a place, as pieces. -/
inductive Formula.Writes : Place → Formula → List Piece → Prop
  | leaf {place : Place} {l : Leaf} {text : List Char} (h : l.Spells text) :
      Writes place (.leaf l) [.operand text]
  | signed {place : Place} {sign : AddSign} {e : Formula} {ps : List Piece}
      (h : Writes .factor e ps) : Writes place (.signed sign e) (.operator sign.char :: ps)
  | sum {left right : Formula} {sign : AddSign} {ps qs : List Piece} (hleft : Writes .sum left ps)
      (hright : Writes .product right qs) :
      Writes .sum (.sum left sign right) (ps ++ .operator sign.char :: qs)
  | product {place : Place} {left right : Formula} {sign : MulSign} {ps qs : List Piece}
      (hplace : place ≠ .factor) (hleft : Writes .product left ps)
      (hright : Writes .factor right qs) :
      Writes place (.product left sign right) (ps ++ .operator sign.char :: qs)
  | wrapped {place : Place} {e : Formula} {ps : List Piece} (h : Writes .sum e ps) :
      Writes place e (.leftParen :: (ps ++ [.rightParen]))

def Piece.text : Piece → List Char
  | .operand text => text
  | .operator sign => [sign]
  | .leftParen => ['(']
  | .rightParen => [')']

/-- The text is the pieces, with any white space around them. -/
inductive Spaced : List Piece → List Char → Prop
  | nil {gap : List Char} (hgap : ∀ c ∈ gap, Text.isBlank c = true) : Spaced [] gap
  | cons {gap text : List Char} {piece : Piece} {ps : List Piece}
      (hgap : ∀ c ∈ gap, Text.isBlank c = true) (h : Spaced ps text) :
      Spaced (piece :: ps) (gap ++ (piece.text ++ text))

/-- The text is a way to write the formula. -/
def Formula.WrittenAs (e : Formula) (text : String) : Prop :=
  ∃ ps, e.Writes .sum ps ∧ Spaced ps text.toList

/-- The same white space before every piece. -/
theorem spaced_flatMap {gap : List Char} (hgap : ∀ c ∈ gap, Text.isBlank c = true)
    (ps : List Piece) : Spaced ps (ps.flatMap fun piece => gap ++ piece.text) := by
  induction ps with
  | nil => exact .nil (by simp)
  | cons piece ps ih =>
    rw [List.flatMap_cons, List.append_assoc]
    exact .cons hgap ih

theorem Formula.exists_writes {e : Formula} (h : ∀ l ∈ e.leaves, ∃ text, l.Spells text)
    (place : Place) : ∃ ps, e.Writes place ps := by
  induction e generalizing place with
  | leaf l =>
    obtain ⟨text, htext⟩ := h l (by simp [leaves])
    exact ⟨_, .leaf htext⟩
  | signed sign e ih =>
    obtain ⟨ps, hps⟩ := ih h .factor
    exact ⟨_, .signed hps⟩
  | sum left sign right ihl ihr =>
    obtain ⟨ps, hps⟩ := ihl (fun l hl => h l (by simp [leaves, hl])) .sum
    obtain ⟨qs, hqs⟩ := ihr (fun l hl => h l (by simp [leaves, hl])) .product
    exact ⟨_, .wrapped (.sum hps hqs)⟩
  | product left sign right ihl ihr =>
    obtain ⟨ps, hps⟩ := ihl (fun l hl => h l (by simp [leaves, hl])) .product
    obtain ⟨qs, hqs⟩ := ihr (fun l hl => h l (by simp [leaves, hl])) .factor
    exact ⟨_, .wrapped (.product (by simp) hps hqs)⟩

/-- Every formula can be written if its leaves can. -/
theorem Formula.exists_writtenAs {e : Formula} (h : ∀ l ∈ e.leaves, ∃ text, l.Spells text) :
    ∃ text, e.WrittenAs text := by
  obtain ⟨ps, hps⟩ := exists_writes h .sum
  refine ⟨String.ofList (ps.flatMap fun piece => [] ++ piece.text), ps, hps, ?_⟩
  rw [String.toList_ofList]
  exact spaced_flatMap (by simp) ps

end AsmLayout.Expr
