import AsmLayout.Json
import AsmLayout.Session

/-!
# Reports

What the commands print: the layouts of a session, the value of an expression and the tokens of an
operand, each as a listing in columns (`text`) or as a JSON value (`json`).
-/

namespace AsmLayout

/-- The text with blanks after it, up to a width in characters. -/
def padRight (width : Nat) (s : String) : String :=
  s ++ String.ofList (List.replicate (width - s.length) ' ')

/-- The text with blanks before it, up to a width in characters. -/
def padLeft (width : Nat) (s : String) : String :=
  String.ofList (List.replicate (width - s.length) ' ') ++ s

def Diagnostic.toJson (d : Diagnostic) : Json :=
  let message := if d.message.isEmpty then [] else [("message", Json.text d.message)]
  .record ([("kind", .text d.kind.name), ("context", .text d.context),
    ("raw_line", .text d.line)] ++ message)

/-- The outcome of resolving a layout file. -/
structure LayoutReport where
  layouts : List Layout
  diagnostics : List Diagnostic

namespace LayoutReport

def ofSession (s : Session) : LayoutReport := ⟨s.layouts, s.diagnostics⟩

def contextCount (r : LayoutReport) : Nat := r.layouts.length

def symbolCount (r : LayoutReport) : Nat := (r.layouts.flatMap Layout.symbols).length

def errorCount (r : LayoutReport) : Nat := r.diagnostics.length

def status (r : LayoutReport) : String := if r.diagnostics.isEmpty then "ok" else "error"

/-- One line of a listing of labels. -/
def row (label displacement length : String) : String :=
  s!"  {padRight 16 label} {padLeft 8 displacement} {padLeft 8 length}\n"

def entryRow (e : SymbolEntry) : String :=
  row e.label (toString e.displacement.toInt) (toString e.length.toNat)

/-- The listing of one context. -/
def block (l : Layout) : String :=
  s!"{l.context} (size {l.size.toInt})\n" ++ row "LABEL" "DISP" "LENGTH" ++
    String.join (l.symbols.map entryRow) ++ "\n"

def text (r : LayoutReport) : String :=
  String.join (r.layouts.map block) ++
    String.join (r.diagnostics.map fun d => d.render ++ "\n") ++
    s!"{r.contextCount} context(s), {r.symbolCount} symbol(s), {r.errorCount} error(s)\n"

def entryJson (e : SymbolEntry) : Json :=
  .record [("label", .text e.label), ("displacement", .int e.displacement.toInt),
    ("length", .int e.length.toNat)]

def contextJson (l : Layout) : Json :=
  .record [("name", .text l.context), ("size", .int l.size.toInt),
    ("symbols", .array (l.symbols.map entryJson))]

def json (r : LayoutReport) : Json :=
  .record [("status", .text r.status), ("contexts", .array (r.layouts.map contextJson)),
    ("diagnostics", .array (r.diagnostics.map Diagnostic.toJson)),
    ("summary", .record [("contexts", .int r.contextCount), ("symbols", .int r.symbolCount),
      ("errors", .int r.errorCount)])]

end LayoutReport

/-- The outcome of evaluating an expression. -/
structure ValueReport where
  expression : String
  context : String
  counter : Int64
  operand : Operand

namespace ValueReport

def text (r : ValueReport) : String :=
  match r.operand.type with
  | some type => s!"{r.operand.value.render} (type {type.code})\n"
  | none => s!"{r.operand.value.render}\n"

def valueJson : Value → Json
  | .int n => .int n.toInt
  | .text s => .text s

def json (r : ValueReport) : Json :=
  let type := match r.operand.type with
    | some type => [("data_type", Json.text type.code)]
    | none => []
  .record ([("expression", .text r.expression), ("context", .text r.context),
    ("location_counter", .int r.counter.toInt), ("value", valueJson r.operand.value)] ++ type)

end ValueReport

/-- The outcome of dividing an operand into tokens. -/
structure TokenReport where
  operand : String
  tokens : List Token

namespace TokenReport

/-- The kind of a token, as listings name it. -/
def kind : Token → String
  | .decimal _ => "decimal"
  | .register _ _ => "register"
  | .symbol _ => "symbol"
  | .literal _ _ => "literal"
  | .counter => "location_counter"
  | .operator _ => "operator"
  | .leftParen | .rightParen => "paren"
  | .comma => "comma"

def text (r : TokenReport) : String :=
  String.join (r.tokens.map fun t => s!"{padRight 17 (kind t)} {t.text}\n")

def tokenJson (t : Token) : Json := .record [("kind", .text (kind t)), ("text", .text t.text)]

def json (r : TokenReport) : Json :=
  .record [("operand", .text r.operand), ("tokens", .array (r.tokens.map tokenJson))]

end TokenReport
end AsmLayout
