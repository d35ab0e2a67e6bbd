import AsmLayout.Text.Blank
import AsmLayout.TypeCode

/-!
# Splitting an operand text

`Expr.split` divides the text of an operand at its signs, parentheses and white space, without
looking into the pieces. Quoted payloads are kept whole; the apostrophe of a length attribute opens
none. `Expr.Splitter.step` says what one character does.
-/

namespace AsmLayout.Expr

/-- A piece of an operand text. -/
inductive Piece
  /-- Whatever stands between signs, parentheses and white space. -/
  | operand (text : List Char)
  | operator (sign : Char)
  | leftParen
  | rightParen
  deriving DecidableEq, Repr

/-- Where the next character of an operand text stands. -/
inductive Quoting
  | outside
  | inside
  /-- After an apostrophe in a payload, which closes it unless a second one follows. -/
  | apostrophe
  deriving DecidableEq, Repr

/-- The pieces so far, the operand that is still open and where the next character stands. -/
structure Splitter where
  pieces : List Piece
  current : List Char
  quoting : Quoting
  deriving DecidableEq, Repr

namespace Splitter

def start : Splitter := ⟨[], [], .outside⟩

/-- The pieces once the open operand has ended. -/
def flushed (pieces : List Piece) (current : List Char) : List Piece :=
  if current.isEmpty then pieces else pieces ++ [.operand current]

/-- Whether an operand may begin after the given pieces. -/
def operandMayBegin (pieces : List Piece) : Bool :=
  match pieces.getLast? with
  | none | some (.operator _) | some .leftParen => true
  | _ => false

/-- A character outside quotes. -/
def stepOutside (pieces : List Piece) (current : List Char) (c : Char) : Splitter :=
  if c == '\'' then
    ⟨pieces, current ++ [c], if isLengthCode (String.ofList current) then .outside else .inside⟩
  else if c == '(' then ⟨flushed pieces current ++ [.leftParen], [], .outside⟩
  else if c == ')' then ⟨flushed pieces current ++ [.rightParen], [], .outside⟩
  else if c == '*' && current.isEmpty && operandMayBegin pieces then ⟨pieces, [c], .outside⟩
  else if c == '+' || c == '-' || c == '/' || c == '*' then
    ⟨flushed pieces current ++ [.operator c], [], .outside⟩
  else if Text.isBlank c then ⟨flushed pieces current, [], .outside⟩
  else ⟨pieces, current ++ [c], .outside⟩

def step (s : Splitter) (c : Char) : Splitter :=
  match s.quoting with
  | .outside => stepOutside s.pieces s.current c
  | .inside => ⟨s.pieces, s.current ++ [c], if c == '\'' then .apostrophe else .inside⟩
  | .apostrophe =>
    if c == '\'' then ⟨s.pieces, s.current ++ [c], .inside⟩
    else stepOutside s.pieces s.current c

end Splitter

/-- The pieces of an operand text, if every quoted payload in it is closed. -/
def split (text : List Char) : Option (List Piece) :=
  let s := text.foldl Splitter.step .start
  match s.quoting with
  | .inside => none
  | .outside | .apostrophe => some (Splitter.flushed s.pieces s.current)

end AsmLayout.Expr
