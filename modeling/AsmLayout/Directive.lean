import AsmLayout.Text.Blank
import AsmLayout.Text.Case

/-!
# Directives

The directives that shape a layout. `Directive.ofText` reads one by name, in any case and with white
space around it.
-/

namespace AsmLayout

/-- A directive of the layout. -/
inductive Directive
  /-- Reserve storage. -/
  | ds
  /-- Define a constant: laid out as `DS`, whatever its nominal value. -/
  | dc
  /-- Give a label a computed value. -/
  | equ
  /-- Move the location counter. -/
  | org
  /-- Open a dummy section. -/
  | dsect
  deriving DecidableEq, Repr

/-- A text that names no directive. -/
structure UnknownDirective where
  text : String
  deriving DecidableEq, Repr

def UnknownDirective.message (e : UnknownDirective) : String := s!"unknown directive: {e.text}"

namespace Directive

def all : List Directive := [ds, dc, equ, org, dsect]

def name : Directive → String
  | ds => "DS"
  | dc => "DC"
  | equ => "EQU"
  | org => "ORG"
  | dsect => "DSECT"

/-- The directive that a text names. -/
def ofText (text : String) : Except UnknownDirective Directive :=
  match all.find? fun d => d.name == Text.upper (Text.trim text) with
  | some d => .ok d
  | none => .error ⟨text⟩

end Directive
end AsmLayout
