import AsmLayout.ErrorKind

/-!
# Diagnostics

A diagnostic names a record that failed, where it stands and why. It never stops a resolution.
-/

namespace AsmLayout

/-- A failed record. -/
structure Diagnostic where
  kind : ErrorKind
  context : String
  /-- The record as it is written. -/
  line : String
  /-- What is wrong with it; may be empty. -/
  message : String
  deriving DecidableEq, Repr

/-- The diagnostic as listings show it. -/
def Diagnostic.render (d : Diagnostic) : String :=
  let detail := if d.message.isEmpty then "" else s!" ({d.message})"
  s!"error[{d.kind.code}] {d.kind.name} in {d.context}: {d.line}" ++ detail

end AsmLayout
