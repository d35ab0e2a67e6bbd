import AsmLayout.Text.Numeral
import AsmLayout.Toml.Table

/-!
# TOML scalars

The values that are written as one run of characters: booleans, integers in four bases, floats,
dates and times. `Toml.scalar?` tells what such a run stands for.
-/

namespace AsmLayout.Toml

/-- The digits of a run in which single underscores may stand between digits. -/
def grouped? (isDigit : Char → Bool) : List Char → Option (List Char)
  | [] => none
  | [c] => if isDigit c then some [c] else none
  | c :: '_' :: rest => if isDigit c then (grouped? isDigit rest).map (c :: ·) else none
  | c :: rest => if isDigit c then (grouped? isDigit rest).map (c :: ·) else none

/-- The digits of a decimal number, which has no leading zero. -/
def magnitude? (run : List Char) : Option (List Char) :=
  if run.head? = some '0' && run != ['0'] then none else grouped? Char.isDigit run

/-- A run without the sign before it, and whether that is a minus. -/
def unsigned : List Char → Bool × List Char
  | '-' :: run => (true, run)
  | '+' :: run => (false, run)
  | run => (false, run)

/-- An integer. Only decimal ones may have a sign. -/
def integer? : List Char → Option Int64
  | '0' :: 'x' :: run => do
    int64? (Text.digitsValue 16 (← grouped? Text.isHexDigit run))
  | '0' :: 'o' :: run => do
    int64? (Text.digitsValue 8 (← grouped? (fun c => '0' ≤ c && c ≤ '7') run))
  | '0' :: 'b' :: run => do
    int64? (Text.digitsValue 2 (← grouped? (fun c => c == '0' || c == '1') run))
  | run => do
    let (negative, run) := unsigned run
    let n := Text.digitsValue 10 (← magnitude? run)
    int64? (if negative then -(n : Int) else n)

/-- Whether `digits` times a power of ten rounds to a number above the largest finite float. -/
def exceedsFloats (digits : List Char) (exponent : Int) : Bool :=
  let n := Text.digitsValue 10 digits
  let bound := Nat.pow 2 1024 - Nat.pow 2 970
  if n == 0 then false
  else if exponent > 400 then true
  else if exponent < -(digits.length : Int) then false
  else if exponent < 0 then bound * Nat.pow 10 exponent.natAbs ≤ n
  else bound ≤ n * Nat.pow 10 exponent.natAbs

/-- A float: digits with a fraction, an exponent or both, or one of the special values. Positive
numbers must be finite. -/
def isFloat (run : List Char) : Bool :=
  let (negative, run) := unsigned run
  if run = "inf".toList || run = "nan".toList then true
  else
    let isMark (c : Char) : Bool := c == '.' || c == 'e' || c == 'E'
    let whole := magnitude? (run.takeWhile (!isMark ·))
    let scale := run.dropWhile (!isMark ·)
    let (fraction, rest) := match scale with
      | '.' :: scale =>
        (grouped? Char.isDigit (scale.takeWhile (!isMark ·)), scale.dropWhile (!isMark ·))
      | _ => (some [], scale)
    let exponent : Option Int := match rest with
      | [] => some 0
      | '.' :: _ => none
      | _ :: run =>
        let (negative, run) := unsigned run
        (grouped? Char.isDigit run).map fun digits =>
          if negative then -(Text.digitsValue 10 digits : Int) else Text.digitsValue 10 digits
    match whole, fraction, exponent with
    | some whole, some fraction, some exponent =>
      !scale.isEmpty &&
        (negative || !exceedsFloats (whole ++ fraction) (exponent - fraction.length))
    | _, _, _ => false

/-- A run of exactly two digits whose value lies in an interval. -/
def isPair (low high : Nat) (a b : Char) : Bool :=
  a.isDigit && b.isDigit && low ≤ Text.digitsValue 10 [a, b] && Text.digitsValue 10 [a, b] ≤ high

/-- The number of days in a month. -/
def daysInMonth (year month : Nat) : Nat :=
  if month = 2 then if year % 4 = 0 && (year % 100 ≠ 0 || year % 400 = 0) then 29 else 28
  else if month ∈ [4, 6, 9, 11] then 30 else 31

/-- The run behind a calendar date, if it begins with one. -/
def afterDate? : List Char → Option (List Char)
  | y₁ :: y₂ :: y₃ :: y₄ :: '-' :: m₁ :: m₂ :: '-' :: d₁ :: d₂ :: rest =>
    let year := [y₁, y₂, y₃, y₄]
    let days := daysInMonth (Text.digitsValue 10 year) (Text.digitsValue 10 [m₁, m₂])
    if year.all Char.isDigit && isPair 1 12 m₁ m₂ && isPair 1 days d₁ d₂ then some rest else none
  | _ => none

/-- The run behind a time of day, if it begins with one. -/
def afterTime? : List Char → Option (List Char)
  | h₁ :: h₂ :: ':' :: m₁ :: m₂ :: ':' :: s₁ :: s₂ :: rest =>
    if isPair 0 23 h₁ h₂ && isPair 0 59 m₁ m₂ && isPair 0 60 s₁ s₂ then
      match rest with
      | '.' :: rest =>
        if (rest.takeWhile Char.isDigit).isEmpty then none else some (rest.dropWhile Char.isDigit)
      | rest => some rest
    else none
  | _ => none

/-- Nothing, or a distance from universal time. -/
def isOffset : List Char → Bool
  | [] | ['Z'] | ['z'] => true
  | [sign, h₁, h₂, ':', m₁, m₂] =>
    (sign == '+' || sign == '-') && isPair 0 23 h₁ h₂ && isPair 0 59 m₁ m₂
  | _ => false

/-- A time of day with or without an offset. -/
def isOffsetTime (run : List Char) : Bool := (afterTime? run).any isOffset

/-- A date alone. -/
def isDate (run : List Char) : Bool := afterDate? run == some []

/-- A date, a time or both. -/
def isDateTime (run : List Char) : Bool :=
  match afterDate? run with
  | some [] => true
  | some (mark :: time) => (mark == 'T' || mark == 't') && isOffsetTime time
  | none => afterTime? run == some []

/-- What a run of characters stands for. -/
def scalar? (run : List Char) : Option Node :=
  if run = "true".toList then some (.boolean true)
  else if run = "false".toList then some (.boolean false)
  else match integer? run with
    | some n => some (.integer n)
    | none => if isFloat run || isDateTime run then some .other else none

end AsmLayout.Toml
