/-!
# Numerals

Reading whole numbers. A run of digits has a value whatever its length; `int64?` and `uint32?` then
say whether a value fits the two word sizes of a layout: displacements are signed 64-bit words,
lengths and duplication factors unsigned 32-bit words. Main statements: `int64?_eq_some_iff` and
`uint32?_eq_some_iff` (a word is found exactly for its own value).
-/

namespace AsmLayout

/-- The signed 64-bit word with value `n`. -/
def int64? (n : Int) : Option Int64 :=
  if -9223372036854775808 ≤ n ∧ n ≤ 9223372036854775807 then some (Int64.ofInt n) else none

/-- The unsigned 32-bit word with value `n`. -/
def uint32? (n : Int) : Option UInt32 :=
  if 0 ≤ n ∧ n ≤ 4294967295 then some (UInt32.ofNat n.toNat) else none

theorem int64?_eq_some_iff {n : Int} {w : Int64} : int64? n = some w ↔ w.toInt = n := by
  unfold int64?
  have hlo := w.le_toInt
  have hhi := w.toInt_lt
  constructor
  · intro h
    split at h
    · next hn =>
      cases h
      exact Int64.toInt_ofInt_of_le (by omega) (by omega)
    · cases h
  · rintro rfl
    rw [if_pos (by omega), Int64.ofInt_toInt]

theorem uint32?_eq_some_iff {n : Int} {w : UInt32} : uint32? n = some w ↔ (w.toNat : Int) = n := by
  unfold uint32?
  have hhi := w.toNat_lt
  constructor
  · intro h
    split at h
    · next hn =>
      cases h
      have hsize : n.toNat < UInt32.size := by simp only [UInt32.size]; omega
      rw [UInt32.toNat_ofNat_of_lt' hsize]
      omega
    · cases h
  · rintro rfl
    rw [if_pos (by omega), Int.toNat_natCast, UInt32.ofNat_toNat]

namespace Text

/-- A hexadecimal digit. -/
def isHexDigit (c : Char) : Bool :=
  c.isDigit || ('a' ≤ c && c ≤ 'f') || ('A' ≤ c && c ≤ 'F')

/-- The value of a digit; letters count from ten. -/
def digitValue (c : Char) : Nat :=
  if c.isDigit then c.toNat - '0'.toNat
  else if 'a' ≤ c then c.toNat - 'a'.toNat + 10
  else c.toNat - 'A'.toNat + 10

/-- The value of a run of digits. -/
def digitsValue (base : Nat) (cs : List Char) : Nat :=
  cs.foldl (fun n c => n * base + digitValue c) 0

/-- The value of a non-empty run of decimal digits. -/
def decimal? (cs : List Char) : Option Nat :=
  if !cs.isEmpty && cs.all Char.isDigit then some (digitsValue 10 cs) else none

/-- The value of a non-empty run of hexadecimal digits. -/
def hexadecimal? (cs : List Char) : Option Nat :=
  if !cs.isEmpty && cs.all isHexDigit then some (digitsValue 16 cs) else none

/-- The value of decimal digits with at most one sign before them. -/
def signedDecimal? : List Char → Option Int
  | '-' :: cs => (decimal? cs).map fun n => -(n : Int)
  | '+' :: cs => (decimal? cs).map Int.ofNat
  | cs => (decimal? cs).map Int.ofNat

end Text
end AsmLayout
