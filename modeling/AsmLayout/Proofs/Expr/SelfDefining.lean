import AsmLayout.Proofs.Expr.Meaning

/-!
# Self-defining terms

A self-defining term is a type code and a payload between apostrophes. The payload may hold any
characters, with its own apostrophes written twice; `Expr.PayloadValue` says what it stands for.
Main statement: `Expr.evaluate_quoted`.
-/

namespace AsmLayout.Expr

variable {L : Lookups} {code payload : List Char} {type : TypeCode} {value : Value} {e : EvalError}

/-- What a payload stands for as a self-defining term. -/
inductive PayloadValue : TypeCode → List Char → Value → Prop
  | text {payload : List Char} : PayloadValue .c payload (.text (String.ofList payload))
  | hexadecimal {digits : List Char} {n : Int64} (hne : digits ≠ [])
      (hdigits : ∀ c ∈ digits, Text.isHexDigit c = true)
      (hn : n.toInt = Text.digitsValue 16 digits) : PayloadValue .x digits (.int n)
  | decimal {type : TypeCode} {digits : List Char} {n : Int64} {sign : Option AddSign}
      (htype : type ≠ .x ∧ type ≠ .c) (hne : digits ≠ [])
      (hdigits : ∀ c ∈ digits, c.isDigit = true)
      (hn : n.toInt = (sign.getD .plus).before (Text.digitsValue 10 digits)) :
      PayloadValue type ((sign.map AddSign.char).toList ++ digits) (.int n)

theorem exists_digits_of_signedDecimal? {n : Int} (h : Text.signedDecimal? payload = some n) :
    ∃ (sign : Option AddSign) (digits : List Char),
      payload = (sign.map AddSign.char).toList ++ digits ∧ digits ≠ [] ∧
        (∀ c ∈ digits, c.isDigit = true) ∧
        n = (sign.getD .plus).before (Text.digitsValue 10 digits) := by
  unfold Text.signedDecimal? at h
  split at h
  · next digits =>
    obtain ⟨m, hm, rfl⟩ := Option.map_eq_some_iff.1 h
    obtain ⟨k, hk, hkm⟩ := Option.bind_eq_some_iff.1 hm
    cases hkm
    obtain ⟨hne, hdigits, rfl⟩ := Text.decimal?_eq_some_iff.1 hk
    exact ⟨some .minus, digits, rfl, hne, hdigits, rfl⟩
  · next digits =>
    obtain ⟨m, hm, rfl⟩ := Option.map_eq_some_iff.1 h
    obtain ⟨hne, hdigits, rfl⟩ := Text.decimal?_eq_some_iff.1 hm
    exact ⟨some .plus, digits, rfl, hne, hdigits, rfl⟩
  · obtain ⟨m, hm, rfl⟩ := Option.map_eq_some_iff.1 h
    obtain ⟨hne, hdigits, rfl⟩ := Text.decimal?_eq_some_iff.1 hm
    exact ⟨none, payload, rfl, hne, hdigits, rfl⟩

theorem PayloadValue.selfDefining (h : PayloadValue type payload value) :
    selfDefining type payload = .ok value := by
  cases h with
  | text => rfl
  | hexadecimal hne hdigits hn => exact selfDefining_hexadecimal hne hdigits hn
  | @decimal _ digits n sign htype hne hdigits hn =>
    have hvalue := signedDecimal?_sign hne hdigits sign
    rw [← hn] at hvalue
    exact selfDefining_decimal htype hvalue

theorem payloadValue_of_selfDefining (h : selfDefining type payload = .ok value) :
    PayloadValue type payload value := by
  unfold selfDefining at h
  split at h
  · cases h
    exact .text
  · split at h
    · next n hn =>
      cases h
      obtain ⟨m, hm, hword⟩ := Option.bind_eq_some_iff.1 hn
      obtain ⟨hne, hdigits, rfl⟩ := Text.hexadecimal?_eq_some_iff.1 hm
      exact .hexadecimal hne hdigits (int64?_eq_some_iff.1 hword)
    · cases h
  · next hc hx =>
    split at h
    · next n hn =>
      cases h
      obtain ⟨m, hm, hword⟩ := Option.bind_eq_some_iff.1 hn
      obtain ⟨sign, digits, rfl, hne, hdigits, rfl⟩ := exists_digits_of_signedDecimal? hm
      exact .decimal ⟨hx, hc⟩ hne hdigits (int64?_eq_some_iff.1 hword)
    · cases h

/-- The error names the payload, and hexadecimal terms have one of their own. -/
theorem selfDefining_eq_error (h : selfDefining type payload = .error e) :
    e = if type = .x then .invalidHexLiteral (String.ofList payload)
      else .notANumber (String.ofList payload) := by
  unfold selfDefining at h
  split at h
  · cases h
  · split at h
    · cases h
    · cases h; rfl
  · next hc hx =>
    split at h
    · cases h
    · cases h
      rw [if_neg hx]

theorem evaluate_doubled (hcode : TypeCode.ofCode? (String.ofList code) = some type)
    (payload : List Char) :
    evaluate L (String.ofList (code ++ '\'' :: (Text.doubled payload ++ ['\'']))) =
      (selfDefining type payload).map fun value => ⟨value, some type⟩ := by
  have hsplit : split (code ++ '\'' :: (Text.doubled payload ++ ['\''])) =
      some [.operand (code ++ '\'' :: (Text.doubled payload ++ ['\'']))] :=
    split_of_holds rfl (Splitter.holds_doubled hcode payload)
  rw [← split_strip] at hsplit
  rw [evaluate_of_split (by rwa [String.toList_ofList]), List.mapM_cons, List.mapM_nil,
    resolvePiece, resolveText_doubled hcode]
  -- a lone operand is its own result
  cases selfDefining type payload <;> rfl

/-- A self-defining term has the value that its payload stands for, with its type, or the error that
names the payload. Neither symbols nor the counter matter, nor what characters the payload holds. -/
theorem evaluate_quoted (hcode : TypeCode.ofCode? (String.ofList code) = some type)
    (payload : List Char) (L : Lookups) :
    let text := String.ofList (code ++ '\'' :: (Text.doubled payload ++ ['\'']))
    (∀ value, PayloadValue type payload value → evaluate L text = .ok ⟨value, some type⟩) ∧
    ((∀ value, ¬ PayloadValue type payload value) →
      evaluate L text = .error (if type = .x then .invalidHexLiteral (String.ofList payload)
        else .notANumber (String.ofList payload))) := by
  intro text
  rw [show evaluate L text = _ from evaluate_doubled hcode payload]
  constructor
  · intro value h
    rw [h.selfDefining]
    rfl
  · intro hnone
    cases hvalue : selfDefining type payload with
    | ok value => exact absurd (payloadValue_of_selfDefining hvalue) (hnone value)
    | error e =>
      rw [selfDefining_eq_error hvalue]
      rfl

/-- Apostrophes at both ends of a text, the largest hexadecimal word and the one above it, a signed
number, and a number with a blank before it. -/
theorem evaluate_quoted_each :
    let L : Lookups := ⟨10, SymbolMap.symbols ⟨[("C", (3, 1))]⟩, none⟩
    (PayloadValue .c "')' -('".toList (.text "')' -('") ∧
      evaluate L "c''')'' -('''" = .ok ⟨.text "')' -('", some .c⟩) ∧
    (PayloadValue .x "7fffFFFFffffFFFF".toList (.int 9223372036854775807) ∧
      evaluate L "X'7fffFFFFffffFFFF'" = .ok ⟨.int 9223372036854775807, some .x⟩) ∧
    ((∀ value, ¬ PayloadValue .x "8000000000000000".toList value) ∧
      evaluate L "X'8000000000000000'" = .error (.invalidHexLiteral "8000000000000000")) ∧
    (PayloadValue .fd "-007".toList (.int (-7)) ∧
      evaluate L "fD'-007'" = .ok ⟨.int (-7), some .fd⟩) ∧
    ((∀ value, ¬ PayloadValue .fd " 1'".toList value) ∧
      evaluate L "fD' 1'''" = .error (.notANumber " 1'")) := by
  intro L
  have hc : TypeCode.ofCode? (String.ofList ['c']) = some .c := by decide
  have hx : TypeCode.ofCode? (String.ofList ['X']) = some .x := by decide
  have hfd : TypeCode.ofCode? (String.ofList ['f', 'D']) = some .fd := by decide
  have hrefused : ∀ {type payload e}, selfDefining type payload = .error e →
      ∀ value, ¬ PayloadValue type payload value := by
    intro type payload e herror value h
    rw [h.selfDefining] at herror
    cases herror
  have htext : PayloadValue .c "')' -('".toList (.text "')' -('") :=
    payloadValue_of_selfDefining (by decide +kernel)
  have hword : PayloadValue .x "7fffFFFFffffFFFF".toList (.int 9223372036854775807) :=
    payloadValue_of_selfDefining (by decide +kernel)
  have habove : ∀ value, ¬ PayloadValue .x "8000000000000000".toList value :=
    @hrefused _ _ (.invalidHexLiteral "8000000000000000") (by decide +kernel)
  have hsigned : PayloadValue .fd "-007".toList (.int (-7)) :=
    payloadValue_of_selfDefining (by decide +kernel)
  have hblank : ∀ value, ¬ PayloadValue .fd " 1'".toList value :=
    @hrefused _ _ (.notANumber " 1'") (by decide +kernel)
  have hwrites : ∀ {code payload : List Char} {text : String},
      text = String.ofList (code ++ '\'' :: (Text.doubled payload ++ ['\''])) →
      ∀ r, evaluate L (String.ofList (code ++ '\'' :: (Text.doubled payload ++ ['\'']))) = r →
        evaluate L text = r := by
    rintro code payload text rfl r h
    exact h
  exact ⟨⟨htext, hwrites (by decide +kernel) _ ((evaluate_quoted hc _ L).1 _ htext)⟩,
    ⟨hword, hwrites (by decide +kernel) _ ((evaluate_quoted hx _ L).1 _ hword)⟩,
    ⟨habove, hwrites (by decide +kernel) _ ((evaluate_quoted hx _ L).2 habove)⟩,
    ⟨hsigned, hwrites (by decide +kernel) _ ((evaluate_quoted hfd _ L).1 _ hsigned)⟩,
    ⟨hblank, hwrites (by decide +kernel) _ ((evaluate_quoted hfd _ L).2 hblank)⟩⟩

end AsmLayout.Expr
