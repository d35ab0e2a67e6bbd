import AsmLayout.Text.Numeral
import AsmLayout.Token

/-!
# Scanning an operand

`Token.scan` divides an operand into tokens. It is a machine that takes one character at a time:
`Scanner.step` says what a character does and `Scanner.close` what the run that is still open stands
for, once it has ended. Names that `registers` knows are registers, all others symbols.

The sign `*` is the location counter where an operand may begin and multiplication elsewhere.
-/

namespace AsmLayout

/-- A character that may continue a name. -/
def isNameChar (c : Char) : Bool :=
  c.isAlphanum || c == '@' || c == '#' || c == '$' || c == '_' || c == '&' || c == '.'

/-- A character that may open a name. -/
def isNameStart (c : Char) : Bool := c.isAlpha || c == '@' || c == '#' || c == '$' || c == '_'

/-- A blank or a tab: what may stand between tokens. -/
def isSpace (c : Char) : Bool := c == ' ' || c == '\t'

namespace Token

/-- What the scanner is in the middle of. -/
inductive Run
  /-- Between tokens; `blank` says whether the character before was a blank. -/
  | gap (blank : Bool)
  | number (digits : List Char)
  | name (start : Nat) (chars : List Char)
  /-- The name after a length attribute's apostrophe. -/
  | attribute (start : Nat) (code field : List Char)
  /-- The payload after an opening apostrophe. -/
  | literal (start : Nat) (code payload : List Char)
  /-- An apostrophe in a payload, which closes it unless a second one follows. -/
  | apostrophe (start : Nat) (code payload : List Char)
  deriving DecidableEq, Repr

/-- The tokens so far, the position of the next character and the run it meets. -/
structure Scanner where
  tokens : List Token
  position : Nat
  run : Run
  deriving DecidableEq, Repr

namespace Scanner

def start : Scanner := ⟨[], 0, .gap false⟩

/-- Whether the last token completes an operand. -/
def afterOperand (tokens : List Token) : Bool :=
  match tokens.getLast? with
  | some token => token.isOperand || token == .rightParen
  | none => false

/-- The token that `*` makes after the given ones. -/
def star (tokens : List Token) : Token :=
  match tokens.getLast? with
  | none | some (.operator _) | some .comma | some .leftParen => .counter
  | some _ => .operator '*'

/-- The token that a name makes. -/
def named (registers : String → Option UInt8) (name : String) : Token :=
  match registers name with
  | some number => .register name number
  | none => .symbol name

/-- A literal; its type is kept in upper case. -/
def quoted (code payload : List Char) : Token :=
  .literal (String.ofList (code.map Char.toUpper)) (String.ofList payload)

/-- The tokens once the open run has ended. -/
def close (registers : String → Option UInt8) (s : Scanner) : Except TokenError (List Token) :=
  match s.run with
  | .gap _ => .ok s.tokens
  | .number digits =>
    match int64? (Text.digitsValue 10 digits) with
    | some value => .ok (s.tokens ++ [.decimal value])
    | none => .error (.decimalOutOfRange (String.ofList digits))
  | .name _ chars => .ok (s.tokens ++ [named registers (String.ofList chars)])
  | .attribute start code field =>
    if field.isEmpty then .error (.unterminatedLiteral start)
    else .ok (s.tokens ++ [quoted code field])
  | .literal start _ _ => .error (.unterminatedLiteral start)
  | .apostrophe _ code payload => .ok (s.tokens ++ [quoted code payload])

/-- A character that no open run takes. -/
def begin (tokens : List Token) (position : Nat) (blank : Bool) (c : Char) :
    Except TokenError Scanner :=
  let next (added : List Token) (run : Run) : Except TokenError Scanner :=
    .ok ⟨tokens ++ added, position + 1, run⟩
  if (isNameChar c || c == '\'') && afterOperand tokens && !blank then
    .error (.invalidSeparator c position)
  else if isSpace c then next [] (.gap true)
  else if c == '(' then next [.leftParen] (.gap false)
  else if c == ')' then next [.rightParen] (.gap false)
  else if c == ',' then next [.comma] (.gap false)
  else if c == '+' || c == '-' || c == '/' then next [.operator c] (.gap false)
  else if c == '*' then next [star tokens] (.gap false)
  else if c.isDigit then next [] (.number [c])
  else if isNameStart c then next [] (.name position [c])
  else .error (.unexpectedChar c position)

/-- One character. -/
def step (registers : String → Option UInt8) (s : Scanner) (c : Char) :
    Except TokenError Scanner :=
  let goOn (run : Run) : Except TokenError Scanner := .ok ⟨s.tokens, s.position + 1, run⟩
  let ended : Except TokenError Scanner := do begin (← s.close registers) s.position false c
  match s.run with
  | .gap blank => begin s.tokens s.position blank c
  | .number digits => if c.isDigit then goOn (.number (digits ++ [c])) else ended
  | .name start chars =>
    if isNameChar c then goOn (.name start (chars ++ [c]))
    else if c == '\'' then
      if isLengthCode (String.ofList chars) then goOn (.attribute start chars [])
      else goOn (.literal start chars [])
    else ended
  | .attribute start code field =>
    if isNameChar c then goOn (.attribute start code (field ++ [c])) else ended
  | .literal start code payload =>
    if c == '\'' then goOn (.apostrophe start code payload)
    else goOn (.literal start code (payload ++ [c]))
  | .apostrophe start code payload =>
    if c == '\'' then goOn (.literal start code (payload ++ [c])) else ended

end Scanner

/-- The tokens of an operand. -/
def scan (registers : String → Option UInt8) (operand : String) : Except TokenError (List Token) :=
  do (← operand.toList.foldlM (Scanner.step registers) Scanner.start).close registers

end Token
end AsmLayout
