import AsmLayout.NameMap

/-!
# Registers

Register names and their numbers. Every table starts from `RegisterTable.standard` and may add
aliases or give a standard name another number.
-/

namespace AsmLayout

abbrev RegisterTable := NameMap UInt8

namespace RegisterTable

/-- The general registers with and without a leading zero, and `RAC`. -/
def standard : RegisterTable :=
  ⟨[("R0", 0), ("R1", 1), ("R2", 2), ("R3", 3), ("R4", 4), ("R5", 5), ("R6", 6), ("R7", 7),
    ("R8", 8), ("R9", 9), ("R10", 10), ("R11", 11), ("R12", 12), ("R13", 13), ("R14", 14),
    ("R15", 15), ("R00", 0), ("R01", 1), ("R02", 2), ("R03", 3), ("R04", 4), ("R05", 5),
    ("R06", 6), ("R07", 7), ("R08", 8), ("R09", 9), ("RAC", 0)]⟩

end RegisterTable
end AsmLayout
