import AsmLayout.Directive

/-!
# Records

A record is one logical source line: an optional label, a directive and its operand.
-/

namespace AsmLayout

/-- A source line. -/
structure Record where
  label : Option String
  directive : Directive
  operand : String
  deriving DecidableEq, Repr

/-- The line as it is written, its parts joined by single blanks. -/
def Record.render (r : Record) : String :=
  let label := match r.label with
    | some label => label ++ " "
    | none => ""
  let operand := if r.operand.isEmpty then "" else " " ++ r.operand
  label ++ r.directive.name ++ operand

end AsmLayout
