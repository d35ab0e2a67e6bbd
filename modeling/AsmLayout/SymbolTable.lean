import AsmLayout.Lookups
import AsmLayout.Text.Blank

/-!
# The symbol table

Labels belong to contexts. A `SymbolTable` holds the labels of every context in the order in which
they were first defined; a later definition of the same label replaces the entry where it stands.
Seen from inside a context, a bare name is a label of that context and `OTHER.NAME` one of `OTHER`.
-/

namespace AsmLayout

/-- A label with its values. -/
structure SymbolEntry where
  label : String
  /-- Offset from the start of the context, or the value of an `EQU`. -/
  displacement : Int64
  length : UInt32
  context : String
  deriving DecidableEq, Repr

/-- The one spelling of a label or a context name. -/
def normalizeName (foldCase : Bool) (name : String) : String :=
  if foldCase then Text.upper (Text.trim name) else Text.trim name

/-- The labels of a session. -/
structure SymbolTable where
  /-- Whether names that differ in letter case only are the same. -/
  foldCase : Bool
  entries : List SymbolEntry
  deriving DecidableEq, Repr

namespace SymbolTable

def empty (foldCase : Bool) : SymbolTable := ⟨foldCase, []⟩

def normalize (t : SymbolTable) (name : String) : String := normalizeName t.foldCase name

/-- Where the entry of a label stands, both names being normalized. -/
def slot? (t : SymbolTable) (context label : String) : Option Nat :=
  t.entries.findIdx? fun e => e.context == context && e.label == label

/-- The table with a label defined, in place of any earlier definition. -/
def define (t : SymbolTable) (context label : String) (displacement : Int64) (length : UInt32) :
    SymbolTable :=
  let entry : SymbolEntry := ⟨t.normalize label, displacement, length, t.normalize context⟩
  match t.slot? entry.context entry.label with
  | some slot => { t with entries := t.entries.set slot entry }
  | none => { t with entries := t.entries ++ [entry] }

/-- The entry of `label` in `context`. -/
def lookup? (t : SymbolTable) (context label : String) : Option SymbolEntry := do
  t.entries[← t.slot? (t.normalize context) (t.normalize label)]?

/-- The entries of one context. -/
def entriesIn (t : SymbolTable) (context : String) : List SymbolEntry :=
  t.entries.filter fun e => e.context == t.normalize context

def size (t : SymbolTable) : Nat := t.entries.length

/-- A name of the form `CONTEXT.LABEL`, divided at its first point. -/
def qualified? (name : String) : Option (String × String) :=
  let context := name.toList.takeWhile (· != '.')
  match name.toList.dropWhile (· != '.') with
  | _ :: c :: label =>
    if context.isEmpty then none else some (String.ofList context, String.ofList (c :: label))
  | _ => none

/-- The entry that a name stands for inside `scope`. -/
def resolve? (t : SymbolTable) (scope name : String) : Option SymbolEntry :=
  match qualified? name with
  | some (context, label) => t.lookup? context label
  | none => t.lookup? scope name

/-- The symbols as seen from inside `context`. -/
def symbolsFrom (t : SymbolTable) (context : String) : Symbols where
  displacement name := (t.resolve? (t.normalize context) name).map SymbolEntry.displacement
  length name := (t.resolve? (t.normalize context) name).map fun e => Int64.ofNat e.length.toNat

end SymbolTable
end AsmLayout
