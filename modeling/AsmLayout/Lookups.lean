import AsmLayout.NameMap

/-!
# What an evaluation may look up

Expressions own no symbols. They are evaluated against `Lookups`: the location counter, a source of
symbols and, where register terms are re-read, a source of register numbers.
-/

namespace AsmLayout

/-- The two values of a symbol, by name. -/
structure Symbols where
  displacement : String → Option Int64
  length : String → Option Int64

/-- Displacements and lengths by name, outside any layout. -/
abbrev SymbolMap := NameMap (Int64 × Int64)

def SymbolMap.symbols (m : SymbolMap) : Symbols where
  displacement name := (m.find? name).map Prod.fst
  length name := (m.find? name).map Prod.snd

/-- All that an evaluation may consult. -/
structure Lookups where
  /-- The value of `*`. -/
  counter : Int64
  symbols : Symbols
  /-- Register numbers by name; without them a register term keeps the number it was read with. -/
  registers : Option (String → Option UInt8)

end AsmLayout
