import AsmLayout.Proofs.Expr.Reading
import AsmLayout.Storage

/-!
# What decoding a storage operand reads

`StorageOperand.expressions` lists the expressions in parentheses that a storage operand holds: its
duplication factor and its length. Main statements: `StorageOperand.decode_congr` (decoding reads
symbols and the counter through these expressions only) and `StorageOperand.decode_extends` (new
symbols change no outcome but that of an undefined name).
-/

namespace AsmLayout

/-- The error behind a decoding error is in `P`. -/
def DecodeError.SourceIn (P : EvalError → Prop) (e : DecodeError) : Prop :=
  ∃ source, e.source? = some source ∧ P source

namespace StorageOperand

/-- The expression in parentheses at the front of a text. -/
def frontExpression? (text : List Char) : Option String :=
  if text.head? = some '(' then (splitGroup text).map fun group => String.ofList group.1 else none

/-- What follows the duplication factor. -/
def afterDuplication (text : List Char) : List Char :=
  if text.head? = some '(' then ((splitGroup text).map Prod.snd).getD []
  else text.dropWhile fun c => !c.isAlpha

/-- What follows the `L` of a length modifier. -/
def afterLengthLetter : List Char → List Char
  | 'L' :: rest | 'l' :: rest => rest
  | _ => []

/-- The expressions that decoding an operand evaluates. -/
def expressions (operand : String) : List String :=
  let text := Text.strip operand.toList
  let length := afterLengthLetter ((afterDuplication text).dropWhile isCodeLetter)
  (frontExpression? text).toList ++ (frontExpression? length).toList

/-- The names that a storage operand refers to. -/
def references (operand : String) : List String := (expressions operand).flatMap Expr.references

variable [TypeCatalog] {P : EvalError → Prop} {L L' : Lookups}

theorem evaluateCount_agreeUnless {outOfRange : Int64 → Failure} {text : List Char}
    (h : AgreeUnless P (Expr.evaluate L (String.ofList text))
      (Expr.evaluate L' (String.ofList text))) :
    AgreeUnless P (evaluateCount L outOfRange text) (evaluateCount L' outOfRange text) :=
  h.bind fun _ _ => .refl _

theorem takeDuplication_agreeUnless {text : List Char}
    (h : ∀ e ∈ frontExpression? text, AgreeUnless P (Expr.evaluate L e) (Expr.evaluate L' e)) :
    AgreeUnless (DecodeError.SourceIn P) (takeDuplication L text) (takeDuplication L' text) := by
  unfold takeDuplication
  unfold frontExpression? at h
  split
  · next hhead =>
    rw [if_pos hhead] at h
    cases hsplit : splitGroup text with
    | none => exact .refl _
    | some group =>
      have hcount : AgreeUnless P (evaluateCount L .duplicationOutOfRange group.1)
          (evaluateCount L' .duplicationOutOfRange group.1) :=
        evaluateCount_agreeUnless (h (String.ofList group.1) (by simp [hsplit]))
      rcases hcount with heq | ⟨e, he, hP⟩
      · simp only [heq]; exact .refl _
      · simp only [he]; exact .inr ⟨_, rfl, e, rfl, hP⟩
  · exact .refl _

theorem takeDuplication_rest {text rest : List Char} {count : UInt32}
    (h : takeDuplication L text = .ok (count, rest)) : rest = afterDuplication text := by
  unfold takeDuplication at h
  unfold afterDuplication
  split at h
  · next hhead =>
    rw [if_pos hhead]
    cases hsplit : splitGroup text with
    | none => simp only [hsplit] at h; cases h
    | some group =>
      simp only [hsplit] at h
      split at h <;> cases h
      rfl
  · next hhead =>
    rw [if_neg hhead]
    dsimp only at h
    split at h
    · cases h; rfl
    · split at h <;> cases h
      rfl

theorem takeType_rest {text rest : List Char} {type : TypeCode}
    (h : takeType text = .ok (type, rest)) : rest = text.dropWhile isCodeLetter := by
  unfold takeType at h
  dsimp only at h
  split at h <;> cases h
  rfl

theorem lengthModifier_agreeUnless {operand text : List Char}
    (h : ∀ e ∈ frontExpression? text, AgreeUnless P (Expr.evaluate L e) (Expr.evaluate L' e)) :
    AgreeUnless P (lengthModifier L operand text) (lengthModifier L' operand text) := by
  unfold lengthModifier
  unfold frontExpression? at h
  split
  · next hhead =>
    rw [if_pos hhead] at h
    cases hsplit : splitGroup text with
    | none => exact .refl _
    | some group => exact evaluateCount_agreeUnless (h (String.ofList group.1) (by simp [hsplit]))
  · exact .refl _

theorem takeLength_agreeUnless {operand text : List Char} {type : TypeCode}
    (h : ∀ e ∈ frontExpression? (afterLengthLetter text),
      AgreeUnless P (Expr.evaluate L e) (Expr.evaluate L' e)) :
    AgreeUnless (DecodeError.SourceIn P) (takeLength L operand type text)
      (takeLength L' operand type text) := by
  unfold takeLength
  unfold afterLengthLetter at h
  split
  · exact (lengthModifier_agreeUnless h).mapError _ fun e he => ⟨e, rfl, he⟩
  · exact (lengthModifier_agreeUnless h).mapError _ fun e he => ⟨e, rfl, he⟩
  · exact .refl _

theorem decode_agreeUnless {operand : String}
    (h : ∀ e ∈ expressions operand, AgreeUnless P (Expr.evaluate L e) (Expr.evaluate L' e)) :
    AgreeUnless (DecodeError.SourceIn P) (decode L operand) (decode L' operand) := by
  unfold decode
  refine (takeDuplication_agreeUnless fun e he => h e ?_).bind fun ⟨count, rest⟩ hdup => ?_
  · exact List.mem_append_left _ (by simpa using he)
  refine (AgreeUnless.refl _).bind fun ⟨type, rest'⟩ htype => ?_
  refine (takeLength_agreeUnless fun e he => h e ?_).bind fun _ _ => .refl _
  obtain rfl := takeDuplication_rest hdup
  obtain rfl := takeType_rest htype
  exact List.mem_append_right _ (by simpa using he)

/-- Decoding reads the counter and its references only. -/
theorem decode_congr {operand : String} (hc : L'.counter = L.counter)
    (hd : ∀ name ∈ references operand, L'.symbols.displacement name = L.symbols.displacement name)
    (hl : ∀ name ∈ references operand, L'.symbols.length name = L.symbols.length name) :
    decode L' operand = decode L operand := by
  have hagree : AgreeUnless (DecodeError.SourceIn fun _ => False) (decode L operand)
      (decode L' operand) :=
    decode_agreeUnless fun e he => .inl (Expr.evaluate_congr (fun _ => hc)
      (fun name hn => hd name (List.mem_flatMap.2 ⟨e, he, hn⟩))
      fun name hn => hl name (List.mem_flatMap.2 ⟨e, he, hn⟩))
  exact hagree.resolve_right fun ⟨_, _, _, _, hfalse⟩ => hfalse

/-- More symbols change no outcome but that of an undefined name. -/
theorem decode_extends {operand : String} (hc : L'.counter = L.counter)
    (hs : L'.symbols.Extends L.symbols) :
    AgreeUnless (DecodeError.SourceIn EvalError.IsUndefined) (decode L operand) (decode L' operand) :=
  decode_agreeUnless fun _ _ => Expr.evaluate_extends (fun _ => hc) hs

end StorageOperand
end AsmLayout
