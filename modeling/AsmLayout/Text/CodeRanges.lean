/-!
# Sets of code points

`CodeRanges` writes a set of characters as closed intervals of code points. The character classes
of this library (`Text.Blank`, `Text.Hidden`) are tables of this type.
-/

namespace AsmLayout.Text

/-- A set of code points, as closed intervals. -/
structure CodeRanges where
  intervals : List (Nat × Nat)

namespace CodeRanges

/-- Whether one of the intervals covers `c`. -/
def covers (ranges : CodeRanges) (c : Char) : Bool :=
  ranges.intervals.any fun interval => interval.1 ≤ c.toNat && c.toNat ≤ interval.2

theorem covers_eq_true_iff {ranges : CodeRanges} {c : Char} :
    ranges.covers c = true ↔ ∃ i ∈ ranges.intervals, i.1 ≤ c.toNat ∧ c.toNat ≤ i.2 := by
  simp [covers]

end CodeRanges
end AsmLayout.Text
