import AsmLayout.Registers
import AsmLayout.Session
import AsmLayout.Toml.Read

/-!
# Settings

What a session can be told beforehand: whether names fold to upper case, and aliases of registers.
Settings are written in TOML. Aliases are kept in code-point order, which is also the order in which
they are checked and applied.
-/

namespace AsmLayout

/-- The settings of a session. -/
structure Settings where
  foldCase : Bool
  /-- Register aliases, in code-point order of their names. -/
  aliases : List (String × UInt8)
  deriving DecidableEq, Repr

/-- Why a text gives no settings. -/
inductive SettingsError
  | parse
  /-- An alias with a number above 15, or whose name does not begin with an ASCII letter. -/
  | invalidRegister (name : String) (number : UInt8)
  deriving DecidableEq, Repr

namespace SettingsError

/-- A stable name for the cause. -/
def code : SettingsError → String
  | parse => "layout::config::parse"
  | invalidRegister _ _ => "layout::config::register"

def message : SettingsError → String
  | parse => "invalid config"
  | invalidRegister name number =>
    s!"register alias {Text.quoted name} must name a register 0-15, got {number.toNat}"

end SettingsError

namespace Settings

/-- The settings without any text. -/
def standard : Settings := ⟨true, []⟩

/-- The aliases with a further one put in order. -/
def insertAlias (aliases : List (String × UInt8)) (name : String) (number : UInt8) :
    List (String × UInt8) :=
  match aliases with
  | [] => [(name, number)]
  | entry :: rest =>
    if name < entry.1 then (name, number) :: entry :: rest
    else entry :: insertAlias rest name number

/-- An integer from 0 to 255. -/
def byte? : Toml.Node → Option UInt8
  | .integer n => if 0 ≤ n.toInt ∧ n.toInt ≤ 255 then some (UInt8.ofNat n.toInt.toNat) else none
  | _ => none

def foldCase? : Option Toml.Node → Option Bool
  | none => some true
  | some (.boolean b) => some b
  | some _ => none

def aliases? : Option Toml.Node → Option (List (String × UInt8))
  | none => some []
  | some node => do
    (← node.members?).foldlM (fun aliases m => do some (insertAlias aliases m.1 (← byte? m.2))) []

/-- The settings that a document holds. Keys that mean nothing here are passed over. -/
def ofTable? (root : Toml.Table) : Option Settings := do
  some ⟨← foldCase? (root.lookup "fold_case"), ← aliases? (root.lookup "registers")⟩

/-- Whether an alias may be used. -/
def isValidAlias (name : String) (number : UInt8) : Bool :=
  number ≤ 15 && name.toList.head?.any Char.isAlpha

/-- The settings that a TOML text holds. -/
def read (text : String) : Except SettingsError Settings :=
  match (Toml.parse? text).bind ofTable? with
  | none => .error .parse
  | some settings =>
    match settings.aliases.find? fun entry => !isValidAlias entry.1 entry.2 with
    | some (name, number) => .error (.invalidRegister name number)
    | none => .ok settings

/-- The standard registers with the aliases applied in order. -/
def registers (settings : Settings) : RegisterTable :=
  RegisterTable.standard.insertAll settings.aliases

/-- A session under these settings. -/
def session (settings : Settings) : Session := .start settings.registers settings.foldCase

end Settings
end AsmLayout
