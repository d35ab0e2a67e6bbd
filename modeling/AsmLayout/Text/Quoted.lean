import AsmLayout.Text.Hidden

/-!
# Quoted text

`Text.quoted` writes a text between double quotes for a message, so that every character of it can
be told from the message around it.
-/

namespace AsmLayout.Text

/-- One character of a quoted text. An apostrophe needs no escape between double quotes. -/
def quotedChar (c : Char) : List Char :=
  if c = '\x00' then ['\\', '0']
  else if c = '\t' then ['\\', 't']
  else if c = '\n' then ['\\', 'n']
  else if c = '\r' then ['\\', 'r']
  else if c = '"' then ['\\', '"']
  else if c = '\\' then ['\\', '\\']
  else if isHidden c then
    ['\\', 'u', '\x7b'] ++ Nat.toDigits 16 c.toNat ++ ['\x7d']
  else [c]

/-- The text between double quotes, with escapes for what would end it or would not show. -/
def quoted (s : String) : String :=
  String.ofList ('"' :: s.toList.flatMap quotedChar ++ ['"'])

end AsmLayout.Text
