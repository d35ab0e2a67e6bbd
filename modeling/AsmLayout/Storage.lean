import AsmLayout.Expr
import AsmLayout.Token.Scan

/-!
# Storage operands

The operand of `DS` and `DC`: an optional duplication factor, a type code and an optional length
modifier, as in `F`, `3H`, `CL80`, `XL(L'FIELD)` or `0FD`. Whatever follows, such as a nominal
value, is not read. Factor and length are digits or an expression in parentheses.
-/

namespace AsmLayout

/-- What a storage operand reserves: `duplication` elements of `length` bytes. -/
structure StorageOperand where
  duplication : UInt32
  type : TypeCode
  length : UInt32
  deriving DecidableEq, Repr

/-- Why a storage operand cannot be decoded. -/
inductive DecodeError
  | invalidDuplicationFactor (text : String)
  /-- A duplication factor in parentheses that has no usable value. -/
  | duplicationExpression (text : String) (source : EvalError)
  | invalidDataType (code : String)
  | length (source : EvalError)
  deriving DecidableEq, Repr

namespace DecodeError

/-- The evaluation error behind the failure, if there is one. -/
def source? : DecodeError → Option EvalError
  | duplicationExpression _ source | length source => some source
  | invalidDuplicationFactor _ | invalidDataType _ => none

def kind : DecodeError → ErrorKind
  | invalidDuplicationFactor _ | duplicationExpression _ _ => .invalidDuplicationFactor
  | invalidDataType _ => .invalidDataType
  | length source => source.kind

def message : DecodeError → String
  | invalidDuplicationFactor text => s!"invalid duplication factor: {Text.quoted text}"
  | duplicationExpression text source => s!"invalid duplication factor {text}: {source.message}"
  | invalidDataType code => s!"invalid data type: {Text.quoted code}"
  | length source => s!"invalid length modifier: {source.message}"

/-- A stable name for the cause. -/
def code : DecodeError → String
  | invalidDuplicationFactor _ | duplicationExpression _ _ => "layout::invalid_duplication_factor"
  | invalidDataType _ => "layout::invalid_data_type"
  | length _ => "layout::invalid_length"

/-- Whether the failure is a length that names a label not defined yet. A duplication factor must
be known when its record is first read. -/
def isForwardReference : DecodeError → Bool
  | length source => source.isForwardReference
  | _ => false

end DecodeError

namespace StorageOperand

/-- Bytes reserved, if a word can count them. -/
def totalLength? (op : StorageOperand) : Option Int64 :=
  int64? (op.duplication.toNat * op.length.toNat : Nat)

/-- Whether an apostrophe outside quotes, after the characters `before` (the nearest first), is that
of a length attribute: a lone `L` stands before it. -/
def afterLengthCode : List Char → Bool
  | c :: d :: _ => (c == 'L' || c == 'l') && !isNameChar d
  | [c] => c == 'L' || c == 'l'
  | [] => false

/-- Reads on to the parenthesis that closes the outermost of `depth` open ones. `before` holds the
characters already read, the nearest first. -/
def closeGroup (depth : Nat) (quoted : Bool) (before : List Char) :
    List Char → Option (List Char × List Char)
  | [] => none
  | c :: rest =>
    if c == '\'' then
      closeGroup depth (!quoted && !afterLengthCode before) (c :: before) rest
    else if quoted then closeGroup depth quoted (c :: before) rest
    else if c == '(' then closeGroup (depth + 1) quoted (c :: before) rest
    else if c == ')' then
      match depth with
      | 0 => none
      | 1 => some ((c :: before).reverse, rest)
      | depth + 2 => closeGroup (depth + 1) quoted (c :: before) rest
    else closeGroup depth quoted (c :: before) rest

/-- A text that begins with a parenthesis, divided after the one that closes it. Quoted payloads are
passed over. -/
def splitGroup (text : List Char) : Option (List Char × List Char) := closeGroup 0 false [] text

/-- The group and what follows it are the whole text, and the group ends with a character that was
still to be read. -/
theorem append_of_closeGroup {depth : Nat} {quoted : Bool} {before cs group rest : List Char}
    (h : closeGroup depth quoted before cs = some (group, rest)) :
    group ++ rest = before.reverse ++ cs ∧ before.length < group.length := by
  induction cs generalizing depth quoted before with
  | nil => cases h
  | cons c cs ih =>
    -- every way on puts `c` before what is still to be read
    have hnext : ∀ {depth quoted}, closeGroup depth quoted (c :: before) cs = some (group, rest) →
        group ++ rest = before.reverse ++ c :: cs ∧ before.length < group.length := by
      intro depth quoted hclose
      obtain ⟨hgroup, hlength⟩ := ih hclose
      rw [List.reverse_cons, List.append_assoc] at hgroup
      exact ⟨hgroup, Nat.lt_of_succ_lt hlength⟩
    unfold closeGroup at h
    split at h
    · exact hnext h
    split at h
    · exact hnext h
    split at h
    · exact hnext h
    split at h
    · split at h
      · cases h
      · cases h
        simp
      · exact hnext h
    · exact hnext h

theorem append_of_splitGroup {text group rest : List Char}
    (h : splitGroup text = some (group, rest)) : group ++ rest = text :=
  (append_of_closeGroup h).1

/-- The number that an expression in parentheses stands for, as an unsigned word. -/
def evaluateCount [TypeCatalog] (lookups : Lookups) (outOfRange : Int64 → Failure)
    (text : List Char) : Except EvalError UInt32 := do
  let operand ← Expr.evaluate lookups (String.ofList text)
  match operand.value with
  | .text s => .error (.notANumber s)
  | .int n =>
    match uint32? n.toInt with
    | some count => .ok count
    | none => .error (.evaluationFailed (outOfRange n))

/-- The duplication factor at the front of `text`, and the rest. -/
def takeDuplication [TypeCatalog] (lookups : Lookups) (text : List Char) :
    Except DecodeError (UInt32 × List Char) :=
  if text.head? = some '(' then
    match splitGroup text with
    | none => .error (.invalidDuplicationFactor (String.ofList text))
    | some (group, rest) =>
      match evaluateCount lookups .duplicationOutOfRange group with
      | .ok count => .ok (count, rest)
      | .error source => .error (.duplicationExpression (String.ofList group) source)
  else
    let digits := text.takeWhile fun c => !c.isAlpha
    let rest := text.dropWhile fun c => !c.isAlpha
    if digits.isEmpty then .ok (1, rest)
    else match (Text.decimal? digits).bind fun n => uint32? n with
      | some count => .ok (count, rest)
      | none => .error (.invalidDuplicationFactor (String.ofList digits))

/-- A letter of a type code. A length modifier's `L` is none. -/
def isCodeLetter (c : Char) : Bool := c.isAlpha && c != 'L' && c != 'l'

/-- The type at the front of `text`, and the rest. -/
def takeType [TypeCatalog] (text : List Char) : Except DecodeError (TypeCode × List Char) :=
  let code := String.ofList (text.takeWhile isCodeLetter)
  match TypeCatalog.ofCode? code with
  | some type => .ok (type, text.dropWhile isCodeLetter)
  | none => .error (.invalidDataType (Text.upperAscii code))

/-- The value of a length modifier, from what follows its `L`; `operand` is the whole operand. -/
def lengthModifier [TypeCatalog] (lookups : Lookups) (operand text : List Char) :
    Except EvalError UInt32 :=
  if text.head? = some '(' then
    match splitGroup text with
    | none => .error (.evaluationFailed (.unbalancedParens (String.ofList operand)))
    | some (group, _) => evaluateCount lookups .lengthOutOfRange group
  else
    let digits := text.takeWhile Char.isDigit
    match (Text.decimal? digits).bind fun n => uint32? n with
    | some length => .ok length
    | none => .error (.notANumber (String.ofList digits))

/-- The length that follows the type `type` in `operand`: `text` is the operand from there on. -/
def takeLength [TypeCatalog] (lookups : Lookups) (operand : List Char) (type : TypeCode)
    (text : List Char) : Except DecodeError UInt32 :=
  match text with
  | 'L' :: rest | 'l' :: rest => (lengthModifier lookups operand rest).mapError .length
  | _ => .ok (TypeCatalog.byteSize type)

/-- The storage that an operand describes. -/
def decode [TypeCatalog] (lookups : Lookups) (operand : String) :
    Except DecodeError StorageOperand := do
  let operand := Text.strip operand.toList
  let (duplication, rest) ← takeDuplication lookups operand
  let (type, rest) ← takeType rest
  let length ← takeLength lookups operand type rest
  .ok ⟨duplication, type, length⟩

end StorageOperand
end AsmLayout
