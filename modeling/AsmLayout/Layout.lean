import AsmLayout.Diagnostic
import AsmLayout.SymbolTable

/-!
# Layouts

The layout of a context is what its resolution leaves: the labels it defines, the diagnostics of
its records and its size.
-/

namespace AsmLayout

/-- The layout of one context. -/
structure Layout where
  context : String
  /-- The labels of the context, in the order of their first definition. -/
  symbols : List SymbolEntry
  diagnostics : List Diagnostic
  /-- The highest value of the location counter. -/
  size : Int64
  /-- Whether labels are looked up without regard to letter case. -/
  foldCase : Bool
  deriving DecidableEq, Repr

/-- The entry of a label that the context defines. -/
def Layout.lookup? (l : Layout) (label : String) : Option SymbolEntry :=
  l.symbols.find? fun e => e.label == normalizeName l.foldCase label

end AsmLayout
