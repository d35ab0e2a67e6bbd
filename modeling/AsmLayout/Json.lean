/-!
# JSON values

The values of a JSON text and the form in which they are written: every member and item on a line of
its own, two blanks deeper than what it belongs to. Numbers keep their text and objects the order of
their members.
-/

namespace AsmLayout

/-- A JSON value. A string literal has no text where its escapes name half a surrogate pair only:
such a literal is well-formed but stands for no string. -/
inductive Json
  | null
  | bool (b : Bool)
  | number (text : String)
  | string (text : Option String)
  | array (items : List Json)
  | object (members : List (Option String × Json))

namespace Json

def text (s : String) : Json := .string (some s)

def int (n : Int) : Json := .number (toString n)

/-- An object from its members. -/
def record (members : List (String × Json)) : Json :=
  .object (members.map fun m => (some m.1, m.2))

/-- A hexadecimal digit below sixteen. -/
def hexDigit (n : Nat) : Char := Nat.digitChar (n % 16)

/-- A character of a string literal. -/
def escapedChar (c : Char) : List Char :=
  if c = '"' then ['\\', '"']
  else if c = '\\' then ['\\', '\\']
  else if c = '\x08' then ['\\', 'b']
  else if c = '\x0c' then ['\\', 'f']
  else if c = '\n' then ['\\', 'n']
  else if c = '\r' then ['\\', 'r']
  else if c = '\t' then ['\\', 't']
  else if c.toNat < 0x20 then
    ['\\', 'u', '0', '0', hexDigit (c.toNat / 16), hexDigit c.toNat]
  else [c]

/-- A string literal. -/
def literal : Option String → List Char
  | some s => '"' :: s.toList.flatMap escapedChar ++ ['"']
  | none => ['"', '\\', 'u', 'd', '8', '0', '0', '"']

/-- A line break and the blanks before what stands `depth` levels deep. -/
def newline (depth : Nat) : List Char := '\n' :: List.replicate (2 * depth) ' '

mutual

/-- The characters of a value that stands `depth` levels deep. -/
def write (depth : Nat) : Json → List Char
  | null => "null".toList
  | bool true => "true".toList
  | bool false => "false".toList
  | number text => text.toList
  | string text => literal text
  | array [] => ['[', ']']
  | array (item :: items) =>
    '[' :: newline (depth + 1) ++ write (depth + 1) item ++ writeItems (depth + 1) items ++
      newline depth ++ [']']
  | object [] => ['\x7b', '\x7d']
  | object (member :: members) =>
    '\x7b' :: newline (depth + 1) ++ writeMember (depth + 1) member ++
      writeMembers (depth + 1) members ++ newline depth ++ ['\x7d']

/-- Further items of an array. -/
def writeItems (depth : Nat) : List Json → List Char
  | [] => []
  | item :: items => ',' :: newline depth ++ write depth item ++ writeItems depth items

def writeMember (depth : Nat) : Option String × Json → List Char
  | (key, value) => literal key ++ [':', ' '] ++ write depth value

/-- Further members of an object. -/
def writeMembers (depth : Nat) : List (Option String × Json) → List Char
  | [] => []
  | member :: members =>
    ',' :: newline depth ++ writeMember depth member ++ writeMembers depth members

end

/-- The text of a value. -/
def render (value : Json) : String := String.ofList (value.write 0)

end Json
end AsmLayout
