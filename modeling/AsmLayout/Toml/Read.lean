import AsmLayout.Toml.Scalar

/-!
# Reading TOML

`Toml.parse?` reads a TOML document into its root table. Every reader takes what it needs from the
front of the remaining characters or fails. Loops are bounded by the number of characters that
remain, since each round takes at least one.
-/

namespace AsmLayout.Toml

/-- A reader of the remaining characters. -/
abbrev Reader (α : Type) := StateT (List Char) Option α

/-- A character of comments and single-line texts: all but control characters, and the tab. -/
def isTextChar (c : Char) : Bool := c == '\t' || (0x20 ≤ c.toNat && c.toNat != 0x7F)

def isBlank (c : Char) : Bool := c == ' ' || c == '\t'

/-- The next character, which stays where it is. -/
def peek? : Reader (Option Char) := do return (← get).head?

def skip (c : Char) : Reader Unit := do
  match ← get with
  | d :: rest => if d == c then set rest else failure
  | [] => failure

def skipBlanks : Reader Unit := modify (·.dropWhile isBlank)

/-- A line feed, with or without a carriage return before it. -/
def newline : Reader Unit := do
  match ← get with
  | '\n' :: rest | '\r' :: '\n' :: rest => set rest
  | _ => failure

/-- Blanks, a comment or none, and the end of the line or of the document. -/
def lineEnd : Reader Unit := do
  skipBlanks
  if (← peek?) = some '#' then modify (·.dropWhile isTextChar)
  unless (← get).isEmpty do newline

/-- What follows blanks, comments and line ends; `comment` says whether a comment is open. -/
def dropGap (comment : Bool) : List Char → List Char
  | [] => []
  | c :: rest =>
    if comment && isTextChar c then dropGap true rest
    else if c == '\n' then dropGap false rest
    else if c == '\r' then
      match rest with
      | '\n' :: rest => dropGap false rest
      | _ => c :: rest
    else if !comment && isBlank c then dropGap false rest
    else if !comment && c == '#' then dropGap true rest
    else c :: rest

def skipGap : Reader Unit := modify (dropGap false)

/-- The part of an escape in a text that has been read. -/
inductive Escape
  | none
  /-- After a backslash. -/
  | started
  /-- A code point that still lacks digits. -/
  | code (missing value : Nat)

/-- The character that one character after a backslash names. -/
def escaped? : Char → Option Char
  | 'b' => some '\x08'
  | 't' => some '\t'
  | 'n' => some '\n'
  | 'f' => some '\x0c'
  | 'r' => some '\r'
  | '"' => some '"'
  | '\\' => some '\\'
  | _ => none

/-- The character with a given code point. -/
def codePoint? (n : Nat) : Option Char := if n.isValidChar then some (Char.ofNat n) else none

/-- A text up to the quotation mark that closes it, and what follows. -/
def basicText (escape : Escape) : List Char → Option (List Char × List Char)
  | [] => none
  | c :: rest =>
    let followedBy (text : Option Char) := do
      let c ← text
      let (cs, rest) ← basicText .none rest
      some (c :: cs, rest)
    match escape with
    | .none =>
      if c == '"' then some ([], rest)
      else if c == '\\' then basicText .started rest
      else if isTextChar c then followedBy (some c)
      else none
    | .started =>
      if c == 'u' then basicText (.code 4 0) rest
      else if c == 'U' then basicText (.code 8 0) rest
      else followedBy (escaped? c)
    | .code missing value =>
      if !Text.isHexDigit c then none
      else
        let value := value * 16 + Text.digitValue c
        if missing ≤ 1 then followedBy (codePoint? value)
        else basicText (.code (missing - 1) value) rest

/-- Where the next character of a text over several lines stands. -/
inductive BlockPlace
  | inside
  /-- After some quotation marks in a row. -/
  | quotes (count : Nat)
  | escape
  | code (missing value : Nat)
  /-- After a backslash and blanks: the line must end here. -/
  | lineEnd
  /-- After a carriage return. -/
  | carriageReturn

/-- The place after a further character of a text over several lines. -/
def BlockPlace.step (quote : Char) (place : BlockPlace) (c : Char) : Option BlockPlace :=
  match place with
  | .inside | .quotes _ =>
    if c == quote then some (.quotes 1)
    else if c == '\\' && quote == '"' then some .escape
    else if c == '\r' then some .carriageReturn
    else if c == '\n' || isTextChar c then some .inside
    else none
  | .escape =>
    if c == 'u' then some (.code 4 0)
    else if c == 'U' then some (.code 8 0)
    else if isBlank c then some .lineEnd
    else if c == '\n' then some .inside
    else if c == '\r' then some .carriageReturn
    else (escaped? c).map fun _ => .inside
  | .code missing value =>
    if !Text.isHexDigit c then none
    else
      let value := value * 16 + Text.digitValue c
      if missing ≤ 1 then (codePoint? value).map fun _ => .inside
      else some (.code (missing - 1) value)
  | .lineEnd =>
    if isBlank c then some .lineEnd
    else if c == '\n' then some .inside
    else if c == '\r' then some .carriageReturn
    else none
  | .carriageReturn => if c == '\n' then some .inside else none

/-- What follows a text over several lines. Three quotation marks close it; up to two before them
belong to it. -/
def afterBlock (quote : Char) (place : BlockPlace) : List Char → Option (List Char)
  | [] =>
    match place with
    | .quotes count => if 3 ≤ count then some [] else none
    | _ => none
  | c :: rest =>
    match place with
    | .quotes count =>
      if c == quote && count < 5 then afterBlock quote (.quotes (count + 1)) rest
      else if 3 ≤ count then some (c :: rest)
      else (place.step quote c).bind fun place => afterBlock quote place rest
    | _ => (place.step quote c).bind fun place => afterBlock quote place rest

/-- A text in quotation marks or apostrophes on one line. -/
def lineText : Reader String := do
  match ← get with
  | '"' :: rest =>
    let (text, rest) ← basicText .none rest
    set rest
    return String.ofList text
  | '\'' :: rest =>
    let isLiteralChar (c : Char) : Bool := isTextChar c && c != '\''
    set (rest.dropWhile isLiteralChar)
    skip '\''
    return String.ofList (rest.takeWhile isLiteralChar)
  | _ => failure

/-- A text as a value. -/
def text : Reader Unit := do
  match ← get with
  | '"' :: '"' :: '"' :: rest => set (← afterBlock '"' .inside rest)
  | '\'' :: '\'' :: '\'' :: rest => set (← afterBlock '\'' .inside rest)
  | _ => discard lineText

/-- A character of a bare key. -/
def isBareChar (c : Char) : Bool := c.isAlphanum || c == '-' || c == '_'

/-- One step of a key. -/
def simpleKey : Reader String := do
  match ← peek? with
  | some '"' | some '\'' => lineText
  | _ =>
    let cs ← get
    let key := cs.takeWhile isBareChar
    if key.isEmpty then failure
    set (cs.dropWhile isBareChar)
    return String.ofList key

/-- Further steps of a dotted key, after `steps`. -/
def keySteps (rounds : Nat) (steps : List String) : Reader (List String) :=
  match rounds with
  | 0 => failure
  | rounds + 1 => do
    skipBlanks
    let steps := steps ++ [← simpleKey]
    skipBlanks
    if (← peek?) = some '.' then
      skip '.'
      keySteps rounds steps
    else return steps

/-- The number of levels that keys and values may have. -/
def maxDepth : Nat := 79

/-- A key: the steps before the last, and the last. -/
def key : Reader (List String × String) := do
  let steps ← keySteps maxDepth []
  match steps.getLast? with
  | some last => return (steps.dropLast, last)
  | none => failure

/-- The character of a scalar that is no text. -/
def isScalarChar (c : Char) : Bool :=
  c.isAlphanum || c == '+' || c == '-' || c == '_' || c == '.' || c == ':'

/-- The time after a date and a blank. -/
def timeAfterBlank : Reader Unit := do
  match ← get with
  | ' ' :: a :: b :: ':' :: rest =>
    if a.isDigit && b.isDigit then
      let run := a :: b :: ':' :: rest.takeWhile isScalarChar
      set (rest.dropWhile isScalarChar)
      unless isOffsetTime run do failure
  | _ => return

/-- A scalar that is no text. -/
def scalar : Reader Node := do
  let cs ← get
  let run := cs.takeWhile isScalarChar
  let node ← scalar? run
  set (cs.dropWhile isScalarChar)
  if isDate run then timeAfterBlank
  return node

/-- The rest of an array, after its bracket or a comma. -/
def arrayItems (item : Reader Unit) (rounds : Nat) : Reader Unit :=
  match rounds with
  | 0 => failure
  | rounds + 1 => do
    skipGap
    if (← peek?) = some ']' then skip ']'
    else
      item
      skipGap
      if (← peek?) = some ',' then
        skip ','
        arrayItems item rounds
      else skip ']'

/-- The rest of a table in braces, after a comma or before its first member. -/
def inlineMembers (value : Reader Node) (rounds : Nat) (members : Table) : Reader Table :=
  match rounds with
  | 0 => failure
  | rounds + 1 => do
    let (path, last) ← key
    skip '='
    skipBlanks
    let node ← value
    let members ← members.insert? path last node
    skipBlanks
    if (← peek?) = some ',' then
      skip ','
      inlineMembers value rounds members
    else
      skip '\x7d'
      return members

/-- A value in which containers stand at most `depth` deep. -/
def value (depth : Nat) : Reader Node := do
  match ← peek? with
  | some '"' | some '\'' =>
    text
    return .other
  | some '[' =>
    match depth with
    | 0 => failure
    | depth + 1 =>
      skip '['
      arrayItems (discard (value depth)) ((← get).length + 1)
      return .other
  | some '\x7b' =>
    match depth with
    | 0 => failure
    | depth + 1 =>
      skip '\x7b'
      skipBlanks
      if (← peek?) = some '\x7d' then
        skip '\x7d'
        return .inlineTable []
      else return .inlineTable (← inlineMembers (value depth) ((← get).length + 1) [])
  | _ => scalar

/-- A document part way: its root table and the path of the table that is being filled. -/
structure Document where
  root : Table
  path : List String

namespace Document

/-- A header, after its first bracket. -/
def header (d : Document) : Reader Document := do
  let double := (← peek?) = some '['
  if double then skip '['
  let (path, last) ← key
  skip ']'
  if double then skip ']'
  lineEnd
  let openAt := if double then Table.openElement? last else Table.openTable? last
  return ⟨← d.root.modify? path openAt, path ++ [last]⟩

/-- A key and its value. -/
def member (d : Document) : Reader Document := do
  let (path, last) ← key
  skip '='
  skipBlanks
  let node ← value maxDepth
  lineEnd
  return { d with root := ← d.root.modify? d.path (Table.insert? path last node) }

/-- The lines from here on. -/
def lines (rounds : Nat) (d : Document) : Reader Document :=
  match rounds with
  | 0 => failure
  | rounds + 1 => do
    skipBlanks
    match ← peek? with
    | none => return d
    | some '[' =>
      skip '['
      lines rounds (← d.header)
    | some '#' | some '\n' | some '\r' =>
      lineEnd
      lines rounds d
    | some _ => lines rounds (← d.member)

end Document

/-- The root table of a document. A byte order mark may stand before it. -/
def parse? (text : String) : Option Table :=
  let cs := match text.toList with
    | '\ufeff' :: cs => cs
    | cs => cs
  (Document.lines (cs.length + 1) ⟨[], []⟩ cs).map fun result => result.1.root

end AsmLayout.Toml
