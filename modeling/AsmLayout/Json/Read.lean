import AsmLayout.Json
import AsmLayout.Text.Numeral

/-!
# Reading JSON

`Json.parse?` reads a JSON text. It is a machine that takes one character at a time
(`Json.Reader.step`): containers that are still open wait in a list of frames, so that no nesting is
too deep, and `Place` says what may come next. Words and numbers are collected first and judged when
they end.
-/

namespace AsmLayout.Json

/-- An element of a string literal: a character, or the 16-bit unit that an escape names. -/
inductive Element
  | char (c : Char)
  | unit (n : Nat)

/-- The characters of a string literal, unless half a surrogate pair stands alone in it. -/
def elementsText : List Element → Option (List Char)
  | [] => some []
  | .char c :: rest => (elementsText rest).map (c :: ·)
  | .unit high :: rest =>
    if 0xD800 ≤ high && high < 0xDC00 then
      match rest with
      | .unit low :: rest =>
        if 0xDC00 ≤ low && low < 0xE000 then
          (elementsText rest).map
            (Char.ofNat (0x10000 + (high - 0xD800) * 0x400 + (low - 0xDC00)) :: ·)
        else none
      | _ => none
    else if 0xDC00 ≤ high && high < 0xE000 then none
    else (elementsText rest).map (Char.ofNat high :: ·)

/-- The digits of an exponent, with a sign or none before them. -/
def isExponent : List Char → Bool
  | '+' :: cs | '-' :: cs => !cs.isEmpty && cs.all Char.isDigit
  | cs => !cs.isEmpty && cs.all Char.isDigit

/-- What may follow the fraction of a number. -/
def isScale : List Char → Bool
  | [] => true
  | 'e' :: cs | 'E' :: cs => isExponent cs
  | _ => false

/-- What may follow the whole part of a number. -/
def isFraction : List Char → Bool
  | '.' :: cs => !(cs.takeWhile Char.isDigit).isEmpty && isScale (cs.dropWhile Char.isDigit)
  | cs => isScale cs

/-- A number without its sign. -/
def isMagnitude : List Char → Bool
  | '0' :: cs => isFraction cs
  | cs => !(cs.takeWhile Char.isDigit).isEmpty && isFraction (cs.dropWhile Char.isDigit)

/-- A number, in the grammar of JSON. -/
def isNumber : List Char → Bool
  | '-' :: cs => isMagnitude cs
  | cs => isMagnitude cs

/-- The value that a word or number stands for. -/
def ofWord? (word : List Char) : Option Json :=
  if word = "null".toList then some .null
  else if word = "true".toList then some (.bool true)
  else if word = "false".toList then some (.bool false)
  else if isNumber word then some (.number (String.ofList word))
  else none

/-- A container that waits for a value. -/
inductive Frame
  | array (items : List Json)
  | object (members : List (Option String × Json)) (key : Option String)

/-- What may come next. -/
inductive Place
  | value
  /-- A value or the end of an array. -/
  | firstItem
  /-- A key or the end of an object. -/
  | firstKey
  | key (members : List (Option String × Json))
  | colon (members : List (Option String × Json)) (key : Option String)
  /-- What follows a value. -/
  | after (value : Json)

/-- The piece of text that is still open. -/
inductive Lexeme
  | none
  | word (chars : List Char)
  | string (elements : List Element)
  /-- After a backslash. -/
  | escape (elements : List Element)
  /-- An escape that still lacks digits. -/
  | code (elements : List Element) (missing value : Nat)

/-- The state of the reader between two characters. -/
structure Reader where
  /-- The open containers, the innermost first. -/
  frames : List Frame
  place : Place
  lexeme : Lexeme

namespace Reader

def start : Reader := ⟨[], .value, .none⟩

def isSpace (c : Char) : Bool := c == ' ' || c == '\n' || c == '\t' || c == '\r'

/-- A character of a word or a number. -/
def isWordChar (c : Char) : Bool := c.isAlphanum || c == '-' || c == '+' || c == '.'

/-- The state after a string literal. -/
def endString (r : Reader) (elements : List Element) : Option Reader :=
  let text := (elementsText elements).map String.ofList
  match r.place with
  | .value | .firstItem => some { r with place := .after (.string text), lexeme := .none }
  | .firstKey => some { r with place := .colon [] text, lexeme := .none }
  | .key members => some { r with place := .colon members text, lexeme := .none }
  | .colon _ _ | .after _ => none

/-- A character that opens a value. -/
def openValue (r : Reader) (c : Char) : Option Reader :=
  if c == '"' then some { r with place := .value, lexeme := .string [] }
  else if c == '[' then some { r with frames := .array [] :: r.frames, place := .firstItem }
  else if c == '\x7b' then some { r with place := .firstKey }
  else if isWordChar c then some { r with place := .value, lexeme := .word [c] }
  else none

/-- A character after a complete value. -/
def stepAfter (r : Reader) (value : Json) (c : Char) : Option Reader :=
  match r.frames with
  | .array items :: frames =>
    if c == ',' then some { r with frames := .array (items ++ [value]) :: frames, place := .value }
    else if c == ']' then some { r with frames, place := .after (.array (items ++ [value])) }
    else none
  | .object members key :: frames =>
    if c == ',' then some { r with frames, place := .key (members ++ [(key, value)]) }
    else if c == '\x7d' then
      some { r with frames, place := .after (.object (members ++ [(key, value)])) }
    else none
  | [] => none

/-- A character outside words and strings. -/
def stepBetween (r : Reader) (c : Char) : Option Reader :=
  if isSpace c then some r
  else match r.place with
    | .value => openValue r c
    | .firstItem =>
      if c == ']' then some { r with frames := r.frames.tail, place := .after (.array []) }
      else openValue r c
    | .firstKey =>
      if c == '"' then some { r with lexeme := .string [] }
      else if c == '\x7d' then some { r with place := .after (.object []) }
      else none
    | .key _ => if c == '"' then some { r with lexeme := .string [] } else none
    | .colon members key =>
      if c == ':' then
        some { r with frames := .object members key :: r.frames, place := .value }
      else none
    | .after value => stepAfter r value c

/-- The element that a single character after a backslash names. -/
def escaped? : Char → Option Char
  | '"' => some '"'
  | '\\' => some '\\'
  | '/' => some '/'
  | 'b' => some '\x08'
  | 'f' => some '\x0c'
  | 'n' => some '\n'
  | 'r' => some '\r'
  | 't' => some '\t'
  | _ => none

/-- The state once an open word has ended. -/
def endWord (r : Reader) (chars : List Char) : Option Reader :=
  (ofWord? chars).map fun value => { r with place := .after value, lexeme := .none }

def step (r : Reader) (c : Char) : Option Reader :=
  match r.lexeme with
  | .none => stepBetween r c
  | .word chars =>
    if isWordChar c then some { r with lexeme := .word (chars ++ [c]) }
    else (endWord r chars).bind (stepBetween · c)
  | .string elements =>
    if c == '"' then endString r elements
    else if c == '\\' then some { r with lexeme := .escape elements }
    else if c.toNat < 0x20 then none
    else some { r with lexeme := .string (elements ++ [.char c]) }
  | .escape elements =>
    if c == 'u' then some { r with lexeme := .code elements 4 0 }
    else (escaped? c).map fun e => { r with lexeme := .string (elements ++ [.char e]) }
  | .code elements missing value =>
    if !Text.isHexDigit c then none
    else
      let value := value * 16 + Text.digitValue c
      if missing ≤ 1 then some { r with lexeme := .string (elements ++ [.unit value]) }
      else some { r with lexeme := .code elements (missing - 1) value }

/-- The value read, once the text has ended. -/
def finish (r : Reader) : Option Json :=
  let ended := match r.lexeme with
    | .none => some r
    | .word chars => endWord r chars
    | _ => none
  match ended with
  | some ⟨[], .after value, _⟩ => some value
  | _ => none

end Reader

/-- The value of a JSON text. -/
def parse? (text : String) : Option Json :=
  (text.toList.foldlM Reader.step .start).bind Reader.finish

end AsmLayout.Json
