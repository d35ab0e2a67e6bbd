import AsmLayout.Json.Read
import AsmLayout.Session

/-!
# Layout files

A layout file lists contexts and the records of each. Files are JSON texts; every structure in them
is an object, or an array of its fields in order. Contexts must differ in their trimmed upper-case
names.
-/

namespace AsmLayout

/-- A context of a layout file. -/
structure ContextSource where
  name : String
  records : List Record
  deriving DecidableEq, Repr

/-- The contexts of a layout file, in order. -/
structure LayoutFile where
  contexts : List ContextSource
  deriving DecidableEq, Repr

namespace Json

/-- The members of an object that are named in `names`, if no such name occurs twice. -/
def membersNamed? (names : List String) (members : List (String × Json)) :
    Option (List (Option Json)) :=
  names.mapM fun name =>
    match members.filter fun m => m.1 == name with
    | [] => some none
    | [m] => some (some m.2)
    | _ => none

/-- The fields of a structure, in the order of `names`. Unknown members are passed over; missing
fields are none. -/
def fields? (names : List String) : Json → Option (List (Option Json))
  | .object members => do
    membersNamed? names (← members.mapM fun m => m.1.map fun key => (key, m.2))
  | .array items =>
    if items.length ≤ names.length then
      some (items.map some ++ List.replicate (names.length - items.length) none)
    else none
  | _ => none

def string? : Json → Option String
  | .string text => text
  | _ => none

/-- The items of an array field that may be missing. -/
def items? : Option Json → Option (List Json)
  | none => some []
  | some (.array items) => some items
  | some _ => none

end Json

namespace Record

/-- A record as a JSON value. -/
def toJson (r : Record) : Json :=
  let label := match r.label with
    | some label => [("label", Json.text label)]
    | none => []
  .record (label ++ [("command", .text r.directive.name), ("operand", .text r.operand)])

/-- A label that may be missing or null. -/
def labelOfJson? : Option Json → Option (Option String)
  | none | some .null => some none
  | some json => json.string?.map some

def ofJson? (json : Json) : Option Record := do
  match ← json.fields? ["label", "command", "operand"] with
  | [label, some command, operand] =>
    let label ← labelOfJson? label
    let directive ← (Directive.ofText (← command.string?)).toOption
    let operand ← match operand with
      | some operand => operand.string?
      | none => some ""
    some ⟨label, directive, operand⟩
  | _ => none

end Record

namespace ContextSource

def toJson (c : ContextSource) : Json :=
  .record [("name", .text c.name), ("records", .array (c.records.map Record.toJson))]

def ofJson? (json : Json) : Option ContextSource := do
  match ← json.fields? ["name", "records"] with
  | [some name, records] =>
    let name ← name.string?
    some ⟨name, ← (← Json.items? records).mapM Record.ofJson?⟩
  | _ => none

/-- The name by which contexts of one file are told apart. -/
def key (c : ContextSource) : String := Text.upper (Text.trim c.name)

/-- Whether the context goes by `name`, up to the case of ASCII letters. -/
def isNamed (c : ContextSource) (name : String) : Bool :=
  Text.sameAsciiLetters (Text.trim c.name) (Text.trim name)

end ContextSource

/-- Why a text is no layout file. -/
inductive LayoutFileError
  | parse
  | duplicateContext (name : String)
  deriving DecidableEq, Repr

namespace LayoutFileError

/-- A stable name for the cause. -/
def code : LayoutFileError → String
  | parse => "layout::file::parse"
  | duplicateContext _ => "layout::file::duplicate_context"

def message : LayoutFileError → String
  | parse => "invalid layout file"
  | duplicateContext name => s!"context {Text.quoted name} appears more than once"

/-- What a file should look like, where the text is not even that. -/
def help? : LayoutFileError → Option String
  | parse =>
    some "expected a top-level \"contexts\" array whose entries have \"name\" and \"records\""
  | duplicateContext _ => none

end LayoutFileError

namespace LayoutFile

def toJson (file : LayoutFile) : Json :=
  .record [("contexts", .array (file.contexts.map ContextSource.toJson))]

def ofJson? (json : Json) : Option LayoutFile := do
  match ← json.fields? ["contexts"] with
  | [contexts] => some ⟨← (← Json.items? contexts).mapM ContextSource.ofJson?⟩
  | _ => none

/-- The first context whose key stands in `seen` or belongs to a context before it. -/
def firstRepeated? (seen : List String) : List ContextSource → Option ContextSource
  | [] => none
  | c :: rest => if c.key ∈ seen then some c else firstRepeated? (c.key :: seen) rest

/-- The layout file that a JSON text describes. -/
def read (text : String) : Except LayoutFileError LayoutFile :=
  match (Json.parse? text).bind ofJson? with
  | none => .error .parse
  | some file =>
    match firstRepeated? [] file.contexts with
    | some c => .error (.duplicateContext c.name)
    | none => .ok file

/-- The context that goes by `name`. -/
def context? (file : LayoutFile) (name : String) : Option ContextSource :=
  file.contexts.find? (·.isNamed name)

end LayoutFile

namespace Session

/-- The session after the given contexts have been resolved in order. -/
def resolveContexts (s : Session) (contexts : List ContextSource) : Session :=
  contexts.foldl (fun s c => (s.resolve c.name c.records).2) s

/-- The session after every context of a file. -/
def resolveAll (s : Session) (file : LayoutFile) : Session := s.resolveContexts file.contexts

/-- The session after the contexts of a file up to the one that goes by `name`, and whether there is
one. Without one, every context is resolved. -/
def resolveThrough (s : Session) (file : LayoutFile) (name : String) : Bool × Session :=
  match file.contexts.findIdx? (·.isNamed name) with
  | some i => (true, s.resolveContexts (file.contexts.take (i + 1)))
  | none => (false, s.resolveAll file)

end Session
end AsmLayout
