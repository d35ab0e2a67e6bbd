import AsmLayout.LayoutFile
import AsmLayout.Report
import AsmLayout.Settings

/-!
# Commands

What the program can be asked to do, and what it answers. `Invocation.run` is a function of the
texts of the files that the invocation names; reading them is left to the caller.
-/

namespace AsmLayout

/-- A task of the program. Every task can be answered as a listing or as JSON. -/
inductive Command
  /-- Lay out every context of a file. -/
  | resolve (layout : String) (json denyDiagnostics : Bool)
  /-- Evaluate an expression, with the labels of a layout file if one is given. -/
  | eval (expression : String) (layout : Option String) (context : String) (counter : Int64)
      (json : Bool)
  /-- Divide an operand into tokens. -/
  | tokens (operand : String) (json : Bool)
  deriving DecidableEq, Repr

/-- A command with the file of its settings. -/
structure Invocation where
  settings : Option String
  command : Command
  deriving DecidableEq, Repr

/-- What a run leaves: its exit status, its output and, if it failed, the reason. -/
structure Outcome where
  status : UInt8
  output : String
  complaint : Option String
  deriving DecidableEq, Repr

namespace Outcome

def success (output : String) : Outcome := ⟨0, output, none⟩

def failure (complaint : String) : Outcome := ⟨1, "", some complaint⟩

/-- The outcome of a computation that may fail. -/
def ofExcept (result : Except String Outcome) : Outcome :=
  match result with
  | .ok outcome => outcome
  | .error complaint => failure complaint

end Outcome

namespace Command

/-- The text of a file, or a complaint. -/
def fileText (files : String → Option String) (path : String) : Except String String :=
  match files path with
  | some text => .ok text
  | none => .error s!"cannot read {path}"

def layoutFile (files : String → Option String) (path : String) : Except String LayoutFile := do
  let text ← fileText files path
  (LayoutFile.read text).mapError fun e => s!"{path}: {e.message}"

/-- A report in the form that was asked for. -/
def form (json : Bool) (text : String) (value : Json) : String :=
  if json then value.render ++ "\n" else text

/-- The session in which an expression is evaluated: with a blank context every context of the file
is resolved, otherwise those up to the context. -/
def evaluationSession (files : String → Option String) (session : Session)
    (layout : Option String) (context : String) : Except String Session :=
  match layout with
  | none => .ok session
  | some path => do
    let file ← layoutFile files path
    if Text.isBlankText context then .ok (session.resolveAll file)
    else match session.resolveThrough file context with
      | (true, session) => .ok session
      | (false, _) => .error s!"context {context} not found in {path}"

def run (files : String → Option String) (session : Session) :
    Command → Except String Outcome
  | resolve layout json denyDiagnostics => do
    let file ← layoutFile files layout
    let report := LayoutReport.ofSession (session.resolveAll file)
    let output := form json report.text report.json
    if denyDiagnostics && report.errorCount != 0 then
      .ok ⟨1, output, some s!"layout resolution reported {report.errorCount} diagnostic(s)"⟩
    else .ok (.success output)
  | eval expression layout context counter json => do
    let session ← evaluationSession files session layout context
    let operand ← (session.evaluate context expression counter).mapError EvalError.message
    let report : ValueReport := ⟨expression, context, counter, operand⟩
    .ok (.success (form json report.text report.json))
  | tokens operand json => do
    let tokens ← (session.tokenize operand).mapError TokenError.message
    let report : TokenReport := ⟨operand, tokens⟩
    .ok (.success (form json report.text report.json))

/-- The layout file that a command names. -/
def layout? : Command → Option String
  | resolve layout _ _ => some layout
  | eval _ layout _ _ _ => layout
  | tokens _ _ => none

end Command

namespace Invocation

/-- The files that the invocation may read. -/
def paths (i : Invocation) : List String := i.settings.toList ++ i.command.layout?.toList

def loadSettings (files : String → Option String) : Option String → Except String Settings
  | none => .ok .standard
  | some path => do
    let text ← Command.fileText files path
    (Settings.read text).mapError fun e => s!"{path}: {e.message}"

/-- What the invocation does when the files have the given texts. -/
def run (files : String → Option String) (i : Invocation) : Outcome :=
  .ofExcept do i.command.run files (← loadSettings files i.settings).session

end Invocation
end AsmLayout
