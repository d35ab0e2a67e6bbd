import AsmLayout.Storage

/-!
# Storage areas

Where the storage of an operand comes to lie: `alignUp` rounds a counter up to a boundary and
`StorageOperand.area` adds what the operand reserves. Both fail where the result is no word.
-/

namespace AsmLayout

/-- The least multiple of `size` that is not below `value`, if it is a word. Every value is aligned
to no boundary at all. -/
def alignUp (value : Int64) (size : UInt32) : Option Int64 :=
  if size = 0 then some value else int64? (value.toInt + -value.toInt % size.toNat)

/-- A stretch of storage: the offset of its first byte and the offset just past its last. -/
structure Area where
  displacement : Int64
  stop : Int64
  deriving DecidableEq, Repr

/-- The area that an operand reserves at the first suitable boundary from `counter` on. -/
def StorageOperand.area (op : StorageOperand) (counter : Int64) : Except EvalError Area :=
  match alignUp counter op.type.byteSize with
  | none => .error (.evaluationFailed (.alignmentOverflow counter op.type.byteSize))
  | some displacement =>
    match op.totalLength?.bind fun n => int64? (displacement.toInt + n.toInt) with
    | none =>
      .error (.evaluationFailed (.storageOverflow op.duplication op.length displacement))
    | some stop => .ok ⟨displacement, stop⟩

end AsmLayout
