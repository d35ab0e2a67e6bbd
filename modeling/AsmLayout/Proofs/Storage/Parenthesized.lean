import AsmLayout.Proofs.Storage.Groups
import AsmLayout.Proofs.Storage.Plain

/-!
# Storage operands with expressions in parentheses

A factor or a length in parentheses has the value that its expression has on its own. Main
statement: `StorageOperand.decode_parenthesized`. What is divided off as the expression ends at the
parenthesis that closes the first one; `StorageOperand.decode_parenthesized_not_always` shows one
that does not close its parentheses and still has a value.
-/

namespace AsmLayout.StorageOperand

open AsmLayout.Token

/-- An unsigned word can hold the number. -/
def InWord (n : Int64) : Prop := 0 ≤ n.toInt ∧ n.toInt ≤ 4294967295

instance (n : Int64) : Decidable (InWord n) :=
  inferInstanceAs (Decidable (0 ≤ n.toInt ∧ n.toInt ≤ 4294967295))

theorem uint32?_of_inWord {n : Int64} (h : InWord n) :
    ∃ count : UInt32, uint32? n.toInt = some count ∧ (count.toNat : Int) = n.toInt :=
  ⟨_, if_pos h, uint32?_eq_some_iff.1 (if_pos h)⟩

theorem uint32?_of_not_inWord {n : Int64} (h : ¬ InWord n) : uint32? n.toInt = none := if_neg h

/-- An expression that divides into tokens and has the value `n`. Its parentheses outside quotes are
all closed; where no comma stands outside quotes, that goes without saying. -/
structure IsNumber [TypeCatalog] (L : Lookups) (e : String) (n : Int64) : Prop where
  tokens : ∃ registers tokens, scan registers e = .ok tokens ∧
    (.comma ∈ tokens → Bracket.Balanced (tokens.map Token.bracket))
  value : ∃ type, Expr.evaluate L e = .ok ⟨.int n, type⟩

/-- A text that the catalog takes for the code of a type, in letters that a code may have. -/
structure IsCode [TypeCatalog] (code : String) (type : TypeCode) : Prop where
  letters : ∀ c ∈ code.toList, isCodeLetter c = true
  found : TypeCatalog.ofCode? code = some type

/-- In the standard catalog, all codes have such letters. -/
theorem isCode_iff {code : String} {type : TypeCode} :
    IsCode code type ↔ TypeCode.ofCode? code = some type := by
  refine ⟨fun h => h.found, fun h => ⟨fun c hc => ?_, h⟩⟩
  have hupper : type.code = Text.upperAscii code := by simpa using List.find?_some h
  have hmem : c.toUpper ∈ type.code.toList := by
    rw [hupper, Text.upperAscii, String.toList_ofList]
    exact List.mem_map_of_mem hc
  rw [← isCodeLetter_toUpper]
  exact isCodeLetter_of_mem_code _ hmem

variable {e e₁ e₂ code tail : String}

/-- A length in parentheses, behind the code of a type. -/
def lengthText (code e : String) : String := code ++ "L(" ++ e ++ ")"

theorem toList_lengthText : (lengthText code e).toList =
    code.toList ++ 'L' :: '(' :: (e.toList ++ [')']) := by
  simp [lengthText]

/-- A factor and a length in parentheses, around the code of a type. -/
def factorText (e₁ code e₂ : String) : String := "(" ++ e₁ ++ ")" ++ lengthText code e₂

theorem toList_factorText : (factorText e₁ code e₂).toList =
    '(' :: (e₁.toList ++ ')' :: (lengthText code e₂).toList) := by
  simp [factorText]

theorem stripped_concat {cs : List Char} {d : Char} (hhead : ∀ c ∈ cs.head?, Text.isBlank c = false)
    (hd : Text.isBlank d = false) : Text.Stripped (cs ++ [d]) := by
  refine ⟨fun hne => ?_, fun hne => ?_⟩
  · cases cs with
    | nil => exact hd
    | cons c cs => exact hhead c rfl
  · rw [List.getLast_concat]
    exact hd

theorem strip_factorText : Text.strip (factorText e₁ code e₂ ++ tail).toList =
    (factorText e₁ code e₂).toList ++ Text.dropTrailing tail.toList := by
  have hstripped : Text.Stripped (factorText e₁ code e₂).toList := by
    have hconcat : (factorText e₁ code e₂).toList =
        '(' :: (e₁.toList ++ ')' :: (code.toList ++ 'L' :: '(' :: e₂.toList)) ++ [')'] := by
      simp [toList_factorText, toList_lengthText]
    rw [hconcat]
    exact stripped_concat (by rintro c ⟨⟩; decide) (by decide)
  rw [String.toList_append]
  exact hstripped.strip_append (by simp [toList_factorText]) _

section

variable [TypeCatalog] {L : Lookups} {registers : String → Option UInt8} {tokens : List Token}
  {n n₁ n₂ : Int64} {type : TypeCode} {operand rest : List Char} {outOfRange : Int64 → Failure}

theorem IsNumber.splitGroup (h : IsNumber L e n) (rest : List Char) :
    splitGroup ('(' :: (e.toList ++ ')' :: rest)) = some ('(' :: (e.toList ++ [')']), rest) := by
  obtain ⟨registers, tokens, hscan, hcomma⟩ := h.tokens
  obtain ⟨type, hvalue⟩ := h.value
  refine splitGroup_of_scan hscan ?_ rest
  by_cases hmem : Token.comma ∈ tokens
  · exact hcomma hmem
  · exact balanced_of_evaluate hscan hmem hvalue

theorem IsNumber.evaluateCount (h : IsNumber L e n) :
    evaluateCount L outOfRange ('(' :: (e.toList ++ [')'])) =
      match uint32? n.toInt with
      | some count => .ok count
      | none => .error (.evaluationFailed (outOfRange n)) := by
  obtain ⟨type, hvalue⟩ := h.value
  obtain ⟨type', hparens⟩ := Expr.evaluate_parens.1 n type hvalue
  rw [StorageOperand.evaluateCount, hparens]
  rfl

theorem IsNumber.takeDuplication (h : IsNumber L e n) (rest : List Char) :
    takeDuplication L ('(' :: (e.toList ++ ')' :: rest)) =
      match uint32? n.toInt with
      | some count => .ok (count, rest)
      | none => .error (.duplicationExpression (String.ofList ('(' :: (e.toList ++ [')'])))
          (.evaluationFailed (.duplicationOutOfRange n))) := by
  rw [StorageOperand.takeDuplication, if_pos List.head?_cons, h.splitGroup]
  dsimp only
  rw [h.evaluateCount]
  cases uint32? n.toInt <;> rfl

theorem takeLength_group {group text : List Char}
    (h : splitGroup ('(' :: text) = some (group, rest)) :
    takeLength L operand type ('L' :: '(' :: text) =
      (StorageOperand.evaluateCount L .lengthOutOfRange group).mapError .length := by
  rw [takeLength_letter (.inl rfl), lengthModifier, if_pos List.head?_cons, h]

theorem IsNumber.takeLength (h : IsNumber L e n) :
    takeLength L operand type ('L' :: '(' :: (e.toList ++ ')' :: rest)) =
      match uint32? n.toInt with
      | some count => .ok count
      | none => .error (.length (.evaluationFailed (.lengthOutOfRange n))) := by
  rw [takeLength_group (h.splitGroup rest), h.evaluateCount]
  cases uint32? n.toInt <;> rfl

theorem parts_lengthText (h : IsCode code type) (rest : List Char) :
    Parts ((lengthText code e).toList ++ rest) [] code.toList
      ('L' :: '(' :: (e.toList ++ ')' :: rest)) := by
  have htext : (lengthText code e).toList ++ rest =
      [] ++ (code.toList ++ 'L' :: ('(' :: (e.toList ++ ')' :: rest))) := by
    simp [toList_lengthText]
  rw [htext]
  exact parts_append nofun h.letters

theorem strip_lengthText (h : IsCode code type) :
    Text.strip (lengthText code e ++ tail).toList =
      (lengthText code e).toList ++ Text.dropTrailing tail.toList := by
  have hstripped : Text.Stripped (lengthText code e).toList := by
    have hconcat : (lengthText code e).toList =
        (code.toList ++ 'L' :: '(' :: e.toList) ++ [')'] := by simp [toList_lengthText]
    rw [hconcat]
    refine stripped_concat (fun c hc => ?_) (by decide)
    cases hcode : code.toList with
    | nil => rw [hcode] at hc; cases hc; decide
    | cons d ds =>
      rw [hcode] at hc
      cases hc
      have hletter := h.letters c (by rw [hcode]; exact List.mem_cons_self)
      exact isBlank_of_isNameChar (isNameChar_of_isCodeLetter hletter)
  rw [String.toList_append]
  exact hstripped.strip_append (by simp [toList_lengthText]) _

theorem decode_length (hcode : IsCode code type) :
    decode L (lengthText code e ++ tail) =
      (takeLength L (Text.strip (lengthText code e ++ tail).toList) type
        ('L' :: '(' :: (e.toList ++ ')' :: Text.dropTrailing tail.toList))).map
          fun length => ⟨1, type, length⟩ := by
  have hparts := parts_lengthText (e := e) hcode (Text.dropTrailing tail.toList)
  rw [← strip_lengthText hcode] at hparts
  refine decode_of_taken (hparts.takeDuplication ?_ (.inl ⟨rfl, rfl⟩)) hparts.code ?_
  · -- no factor is in parentheses: the text begins with a letter, or with the `L` of the length
    rw [hparts.text_eq]
    cases hc : code.toList with
    | nil => nofun
    | cons d ds =>
      rintro ⟨⟩
      have hletter := hcode.letters '(' (by rw [hc]; exact List.mem_cons_self)
      exact absurd hletter (by decide)
  · rw [String.ofList_toList]
    exact hcode.found

theorem decode_factor (hcode : IsCode code type) (h₁ : IsNumber L e₁ n₁)
    (h₂ : IsNumber L e₂ n₂) :
    decode L (factorText e₁ code e₂ ++ tail) =
      match uint32? n₁.toInt, uint32? n₂.toInt with
      | some duplication, some length => .ok ⟨duplication, type, length⟩
      | some _, none => .error (.length (.evaluationFailed (.lengthOutOfRange n₂)))
      | none, _ => .error (.duplicationExpression (String.ofList ('(' :: (e₁.toList ++ [')'])))
          (.evaluationFailed (.duplicationOutOfRange n₁))) := by
  have hparts := parts_lengthText (e := e₂) hcode (Text.dropTrailing tail.toList)
  have htext : Text.strip (factorText e₁ code e₂ ++ tail).toList =
      '(' :: (e₁.toList ++ ')' :: (code.toList ++
        'L' :: '(' :: (e₂.toList ++ ')' :: Text.dropTrailing tail.toList))) := by
    rw [strip_factorText, toList_factorText, toList_lengthText]
    simp
  have hfactor := h₁.takeDuplication
    (code.toList ++ 'L' :: '(' :: (e₂.toList ++ ')' :: Text.dropTrailing tail.toList))
  rw [← htext] at hfactor
  cases hn₁ : uint32? n₁.toInt with
  | none =>
    rw [hn₁] at hfactor
    rw [decode, hfactor]
    rfl
  | some duplication =>
    rw [hn₁] at hfactor
    rw [decode_of_taken hfactor hparts.code (by rw [String.ofList_toList]; exact hcode.found),
      h₂.takeLength]
    cases uint32? n₂.toInt <;> rfl

end

/-- Where the expressions of an operand have numbers, it is decoded to these if unsigned words can
hold them, and fails on the first that none can hold. A length that names what is not defined is a
forward reference of the operand. All this holds of any catalog, and in the standard one a text is a
code just if it is that of a type. -/
theorem decode_parenthesized :
    (∀ code type, IsCode code type ↔ TypeCode.ofCode? code = some type) ∧
    ∀ [TypeCatalog] (L : Lookups) (code tail : String) (type : TypeCode), IsCode code type →
      (∀ e₁ e₂ n₁ n₂, IsNumber L e₁ n₁ → IsNumber L e₂ n₂ →
        let result := decode L (factorText e₁ code e₂ ++ tail)
        ((∃ op, result = .ok op) ↔ InWord n₁ ∧ InWord n₂) ∧
        (∀ op, result = .ok op → (op.duplication.toNat : Int) = n₁.toInt ∧ op.type = type ∧
          (op.length.toNat : Int) = n₂.toInt) ∧
        (¬ InWord n₁ → ∃ text source, result = .error (.duplicationExpression text source)) ∧
        (InWord n₁ → ¬ InWord n₂ →
          ∃ failure, result = .error (.length (.evaluationFailed failure)))) ∧
      (∀ e n, IsNumber L e n →
        let result := decode L (lengthText code e ++ tail)
        ((∃ op, result = .ok op) ↔ InWord n) ∧
        (∀ op, result = .ok op → op.duplication = 1 ∧ op.type = type ∧
          (op.length.toNat : Int) = n.toInt) ∧
        (¬ InWord n → ∃ failure, result = .error (.length (.evaluationFailed failure)))) ∧
      ∀ e registers tokens source, scan registers e = .ok tokens →
        Bracket.Balanced (tokens.map Token.bracket) → Expr.evaluate L e = .error source →
        source.isForwardReference = true →
          decode L (lengthText code e ++ tail) = .error (.length source) ∧
          (DecodeError.length source).isForwardReference = true := by
  refine ⟨fun code type => isCode_iff, ?_⟩
  intro catalog L code tail type hcode
  refine ⟨fun e₁ e₂ n₁ n₂ h₁ h₂ => ?_, fun e n h => ?_, ?_⟩
  · rw [decode_factor hcode h₁ h₂]
    by_cases hn₁ : InWord n₁
    · obtain ⟨duplication, hduplication, hvalue₁⟩ := uint32?_of_inWord hn₁
      rw [hduplication]
      by_cases hn₂ : InWord n₂
      · obtain ⟨length, hlength, hvalue₂⟩ := uint32?_of_inWord hn₂
        rw [hlength]
        refine ⟨⟨fun _ => ⟨hn₁, hn₂⟩, fun _ => ⟨_, rfl⟩⟩, ?_, fun h => absurd hn₁ h,
          fun _ h => absurd hn₂ h⟩
        rintro op ⟨⟩
        exact ⟨hvalue₁, rfl, hvalue₂⟩
      · rw [uint32?_of_not_inWord hn₂]
        exact ⟨⟨nofun, fun h => absurd h.2 hn₂⟩, nofun, fun h => absurd hn₁ h,
          fun _ _ => ⟨_, rfl⟩⟩
    · rw [uint32?_of_not_inWord hn₁]
      exact ⟨⟨nofun, fun h => absurd h.1 hn₁⟩, nofun, fun _ => ⟨_, _, rfl⟩,
        fun h => absurd h hn₁⟩
  · rw [decode_length hcode, h.takeLength]
    by_cases hn : InWord n
    · obtain ⟨length, hlength, hvalue⟩ := uint32?_of_inWord hn
      rw [hlength]
      refine ⟨⟨fun _ => hn, fun _ => ⟨_, rfl⟩⟩, ?_, fun h => absurd hn h⟩
      rintro op ⟨⟩
      exact ⟨rfl, rfl, hvalue⟩
    · rw [uint32?_of_not_inWord hn]
      exact ⟨⟨nofun, fun h => absurd h hn⟩, nofun, fun _ => ⟨_, rfl⟩⟩
  · intro e registers tokens source hscan hbalanced hsource hforward
    refine ⟨?_, hforward⟩
    -- parentheses around an expression keep the name in it that is not defined
    have hcount : evaluateCount L .lengthOutOfRange ('(' :: (e.toList ++ [')'])) =
        .error source := by
      rw [evaluateCount, Expr.evaluate_parens.2 source hsource hforward]
      rfl
    rw [decode_length hcode, takeLength_group (splitGroup_of_scan hscan hbalanced _), hcount]
    rfl

theorem decode_parenthesized_lowerCase :
    let L : Lookups := ⟨0, SymbolMap.symbols ⟨[("A", (8, 4))]⟩, none⟩
    TypeCode.ofCode? "f" = some .f ∧ IsNumber L "L'A" 4 ∧ IsNumber L "A*(1-2)" (-8) ∧
    (∃ op, decode L (factorText "L'A" "f" "L'A" ++ "'1'") = .ok op) ∧
    (∃ text source, decode L (factorText "A*(1-2)" "f" "L'A" ++ "") =
      .error (.duplicationExpression text source)) ∧
    (∃ failure, decode L (lengthText "f" "A*(1-2)" ++ "") =
      .error (.length (.evaluationFailed failure))) ∧
    decode L (lengthText "f" "B" ++ "") = .error (.length (.invalidSymbolKey "B")) := by
  intro L
  have hcode : TypeCode.ofCode? "f" = some .f := by decide +kernel
  have hlength : IsNumber L "L'A" 4 :=
    ⟨⟨fun _ => none, _, rfl, by decide +kernel⟩, _, rfl⟩
  have hnegative : IsNumber L "A*(1-2)" (-8) :=
    ⟨⟨fun _ => none, _, rfl, by decide +kernel⟩, _, rfl⟩
  obtain ⟨hcodes, hdecode⟩ := decode_parenthesized
  obtain ⟨hfactors, -, -⟩ := hdecode L "f" "'1'" .f ((hcodes "f" .f).2 hcode)
  obtain ⟨hfactors', hlengths, hforward⟩ := hdecode L "f" "" .f ((hcodes "f" .f).2 hcode)
  refine ⟨hcode, hlength, hnegative, ?_, ?_, ?_, ?_⟩
  · exact (hfactors _ _ _ _ hlength hlength).1.2 (by decide)
  · exact (hfactors' _ _ _ _ hnegative hlength).2.2.1 (by decide)
  · exact (hlengths _ _ hnegative).2.2 (by decide)
  · exact (hforward "B" (fun _ => none) _ _ rfl (by decide +kernel) rfl rfl).1

/-- A comma may part expressions whose parentheses match only across it. Read as one expression they
may have a value all the same, but what is decoded ends at the first parenthesis that closes more
than it opens. -/
theorem decode_parenthesized_not_always :
    ¬ ∀ (L : Lookups) (code : String) (type : TypeCode) (tail e₁ e₂ : String) (n₁ n₂ : Int64),
      TypeCode.ofCode? code = some type →
      (∃ tokens, scan RegisterTable.standard.find? e₁ = .ok tokens) →
      (∃ tokens, scan RegisterTable.standard.find? e₂ = .ok tokens) →
      (∃ type, Expr.evaluate L e₁ = .ok ⟨.int n₁, type⟩) →
      (∃ type, Expr.evaluate L e₂ = .ok ⟨.int n₂, type⟩) → InWord n₁ → InWord n₂ →
        ∃ op, decode L (factorText e₁ code e₂ ++ tail) = .ok op := by
  intro h
  let L : Lookups := ⟨0, SymbolMap.symbols ⟨[("A", (0, 4))]⟩, none⟩
  obtain ⟨op, hop⟩ := h L "F" .f "" "L'A&,L'C)+(D,L'E" "4" 4 4 (by decide +kernel) ⟨_, rfl⟩ ⟨_, rfl⟩
    ⟨_, rfl⟩ ⟨_, rfl⟩ (by decide) (by decide)
  have hfails : (decode L (factorText "L'A&,L'C)+(D,L'E" "F" "4" ++ "")).toOption = none := by
    decide +kernel
  rw [hop] at hfails
  cases hfails

end AsmLayout.StorageOperand
