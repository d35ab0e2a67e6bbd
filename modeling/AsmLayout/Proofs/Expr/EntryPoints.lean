import AsmLayout.Proofs.Expr.Reading
import AsmLayout.Proofs.Token.Simulation
import AsmLayout.Registers

/-!
# The two ways to evaluate an operand

Main statement: `Expr.evaluateTokens_agrees` (where the tokens of an operand are neither registers
nor commas, they are evaluated like its text).
-/

namespace AsmLayout.Expr

theorem foldl_step_dropWhile (cs : List Char) :
    (cs.dropWhile Text.isBlank).foldl Splitter.step Splitter.start =
      cs.foldl Splitter.step Splitter.start := by
  induction cs with
  | nil => rfl
  | cons c cs ih =>
    by_cases hc : Text.isBlank c = true
    · have hstep : Splitter.start.step c = Splitter.start :=
        Splitter.stepOutside_of_isBlank hc
      rw [List.dropWhile_cons_of_pos hc, List.foldl_cons, hstep, ih]
    · rw [List.dropWhile_cons_of_neg hc]

theorem split_concat_blank {cs : List Char} {c : Char} (hc : Text.isBlank c = true) :
    split (cs ++ [c]) = split cs := by
  unfold split
  rw [List.foldl_append]
  obtain ⟨pieces, current, quoting⟩ := cs.foldl Splitter.step Splitter.start
  have houtside : Splitter.stepOutside pieces current c = _ := Splitter.stepOutside_of_isBlank hc
  have hquote : (c == '\'') = false := by
    refine beq_false_of_ne ?_
    rintro rfl
    revert hc
    decide
  cases quoting with
  | inside => simp [Splitter.step, hquote]
  | outside => simp [Splitter.step, houtside, Splitter.flushed]
  | apostrophe => simp [Splitter.step, hquote, houtside, Splitter.flushed]

/-- White space at the ends of an operand does not matter. -/
theorem split_strip (cs : List Char) : split (Text.strip cs) = split cs := by
  have htrailing : ∀ ds : List Char, split (ds.rdropWhile Text.isBlank) = split ds := by
    intro ds
    induction ds using List.reverseRecOn with
    | nil => rfl
    | append_singleton ds c ih =>
      by_cases hc : Text.isBlank c = true
      · rw [List.rdropWhile_concat_pos _ _ _ hc, ih, split_concat_blank hc]
      · rw [List.rdropWhile_concat_neg _ _ _ hc]
  unfold Text.strip
  rw [Text.dropTrailing_eq, htrailing]
  unfold split
  rw [foldl_step_dropWhile]

variable {registers : String → Option UInt8} {text : String} {tokens : List Token}

/-- The number that an operand is. -/
def numberOf (o : Operand) : Except EvalError Int64 :=
  match o.value with
  | .int n => .ok n
  | .text s => .error (.notANumber s)

theorem evaluateTokens_eq (L : Lookups) (hscan : Token.scan registers text = .ok tokens)
    (hplain : ∀ token ∈ tokens, token.isPlain = true) :
    evaluateTokens L tokens = (evaluate L text).mapError EvalError.upperCode >>= numberOf := by
  obtain ⟨pieces, hsplit, hagree⟩ := Token.exists_split_of_scan hscan hplain
  rw [← split_strip] at hsplit
  rw [evaluate_of_split hsplit]
  show (tokens.mapM (resolveToken L) >>= fun terms => reduceTerms terms >>= numberOf) = _
  rw [Token.mapM_resolveToken hagree L]
  cases pieces.mapM (resolvePiece L) with
  | error e => rfl
  | ok terms =>
    show (reduceTerms terms >>= numberOf) =
      (reduceTerms terms).mapError EvalError.upperCode >>= numberOf
    unfold reduceTerms
    cases reduce terms <;> rfl

/-- The tokens of an operand and its text have the same number; a text that is no number fails as
tokens; and both fail alike, but for the case of an unknown type code. -/
theorem evaluateTokens_agrees (L : Lookups) (hscan : Token.scan registers text = .ok tokens)
    (hregister : ∀ name number, Token.register name number ∉ tokens)
    (hcomma : Token.comma ∉ tokens) :
    (∀ n, evaluateTokens L tokens = .ok n ↔ ∃ type, evaluate L text = .ok ⟨.int n, type⟩) ∧
    (∀ s type, evaluate L text = .ok ⟨.text s, type⟩ →
      evaluateTokens L tokens = .error (.notANumber s)) ∧
    ∀ e, evaluate L text = .error e → evaluateTokens L tokens = .error e.upperCode := by
  have hplain : ∀ token ∈ tokens, token.isPlain = true := by
    intro token ht
    cases token with
    | register name number => exact absurd ht (hregister name number)
    | comma => exact absurd ht hcomma
    | _ => rfl
  have heq := evaluateTokens_eq L hscan hplain
  refine ⟨fun n => ⟨fun hn => ?_, ?_⟩, ?_, ?_⟩
  · rw [heq] at hn
    cases hr : evaluate L text with
    | error e => rw [hr] at hn; cases hn
    | ok o =>
      obtain ⟨value, type⟩ := o
      rw [hr] at hn
      cases value with
      | int m => cases hn; exact ⟨type, rfl⟩
      | text s => cases hn
  · rintro ⟨type, hr⟩
    rw [heq, hr]
    rfl
  · intro s type hr
    rw [heq, hr]
    rfl
  · intro e hr
    rw [heq, hr]
    rfl

/-- The counter as a factor, a length attribute in lower case and a name with a suffix. -/
theorem evaluateTokens_agrees_product :
    let L : Lookups := ⟨10, SymbolMap.symbols ⟨[("A", (3, 4)), ("FLD", (0, 8))]⟩, none⟩
    Token.scan RegisterTable.standard.find? "* * (l'FLD - 2) + A&X" = .ok
      [.counter, .operator '*', .leftParen, .literal "L" "FLD", .operator '-', .decimal 2,
        .rightParen, .operator '+', .symbol "A&X"] ∧
    evaluateTokens L
      [.counter, .operator '*', .leftParen, .literal "L" "FLD", .operator '-', .decimal 2,
        .rightParen, .operator '+', .symbol "A&X"] = .ok 63 := by
  intro L
  have hscan : Token.scan RegisterTable.standard.find? "* * (l'FLD - 2) + A&X" = .ok
      [.counter, .operator '*', .leftParen, .literal "L" "FLD", .operator '-', .decimal 2,
        .rightParen, .operator '+', .symbol "A&X"] := by decide +kernel
  refine ⟨hscan, ((evaluateTokens_agrees L hscan ?_ (by decide)).1 63).2 ⟨none, by decide +kernel⟩⟩
  intro name number h
  simp at h

end AsmLayout.Expr
