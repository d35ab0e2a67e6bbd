import AsmLayout.Proofs.Storage

/-!
# Forward references

An undefined name is the only failure that more symbols may mend, and more symbols always may.
`EvalError.Misses` says what such a failure reports: the symbols do not have the name. Main
statements: `Expr.evaluate_misses`, `StorageOperand.decode_misses` (every failure reports truly) and
`Symbols.outcomes_extends` (the outcomes that no further symbols change are those that are no
undefined name).
-/

namespace AsmLayout

section FailsIn

variable {ε ε' α β : Type} {Q : ε → Prop} {r : Except ε α}

/-- If the result is an error, it is in `Q`. -/
def FailsIn (Q : ε → Prop) (r : Except ε α) : Prop := ∀ e, r = .error e → Q e

theorem FailsIn.ok (a : α) : FailsIn Q (.ok a : Except ε α) := fun _ h => nomatch h

theorem FailsIn.error {e : ε} (h : Q e) : FailsIn Q (.error e : Except ε α) := by
  rintro _ ⟨⟩
  exact h

theorem FailsIn.bind {f : α → Except ε β} (h : FailsIn Q r) (hf : ∀ a, FailsIn Q (f a)) :
    FailsIn Q (r >>= f) := by
  cases r with
  | error e => exact .error (h e rfl)
  | ok a => exact hf a

theorem FailsIn.mapError {Q' : ε' → Prop} (g : ε → ε') (h : FailsIn Q r)
    (hg : ∀ e, Q e → Q' (g e)) : FailsIn Q' (r.mapError g) := by
  cases r with
  | error e => exact .error (hg e (h e rfl))
  | ok a => exact .ok a

theorem FailsIn.mapM {f : α → Except ε β} (h : ∀ a, FailsIn Q (f a)) (l : List α) :
    FailsIn Q (l.mapM f) := by
  induction l with
  | nil => exact .ok []
  | cons a l ih =>
    rw [List.mapM_cons]
    exact (h a).bind fun b => ih.bind fun bs => .ok (b :: bs)

/-- Results that agree are equal where the errors of the first are none of those set apart. -/
theorem AgreeUnless.eq_of_failsIn {P : ε → Prop} {r' : Except ε α} (h : AgreeUnless P r r')
    (hr : FailsIn Q r) (hPQ : ∀ e, P e → ¬ Q e) : r' = r :=
  h.resolve_right fun ⟨e, he, hP⟩ => hPQ e hP (hr e he)

end FailsIn

variable {σ : Symbols}

/-- Where the failure is an undefined name, the symbols do not have it. -/
def EvalError.Misses (σ : Symbols) : EvalError → Prop
  | invalidSymbolKey name => σ.displacement name = none
  | invalidLengthKey name => σ.length name = none
  | _ => True

namespace Expr

theorem selfDefining_misses (type : TypeCode) (field : List Char) :
    FailsIn (EvalError.Misses σ) (selfDefining type field) := by
  unfold selfDefining
  split
  · exact .ok _
  · split
    · exact .ok _
    · exact .error trivial
  · split
    · exact .ok _
    · exact .error trivial

theorem reduceTerms_misses (terms : List Term) :
    FailsIn (EvalError.Misses σ) (reduceTerms terms) := by
  unfold reduceTerms
  cases reduce terms with
  | ok o => exact .ok o
  | error failure => exact .error trivial

variable [TypeCatalog] {L : Lookups}

theorem resolveField_misses (code : String) (field : List Char) :
    FailsIn (EvalError.Misses L.symbols) (resolveField L code field) := by
  unfold resolveField
  by_cases hcode : code.isEmpty = true
  · rw [if_pos hcode]
    cases hname : L.symbols.displacement (symbolKey field) with
    | some n => exact .ok _
    | none => exact .error hname
  rw [if_neg hcode]
  by_cases hlen : isLengthCode code = true
  · rw [if_pos hlen]
    cases hname : L.symbols.length (symbolKey field) with
    | some n => exact .ok _
    | none => exact .error hname
  rw [if_neg hlen]
  cases TypeCatalog.ofCode? code with
  | some type => exact (selfDefining_misses type field).bind fun _ => .ok _
  | none => exact .error trivial

theorem resolveText_misses (text : List Char) :
    FailsIn (EvalError.Misses L.symbols) (resolveText L text) := by
  unfold resolveText
  cases Text.decimal? text with
  | some n =>
    dsimp only
    split
    · exact .ok _
    · exact .error trivial
  | none =>
    dsimp only
    split
    · exact .ok _
    · split
      · exact resolveField_misses _ _
      · exact resolveField_misses _ _

theorem resolvePiece_misses (piece : Piece) :
    FailsIn (EvalError.Misses L.symbols) (resolvePiece L piece) := by
  cases piece with
  | operand text => exact (resolveText_misses text).bind fun _ => .ok _
  | operator sign => exact .ok _
  | leftParen => exact .ok _
  | rightParen => exact .ok _

/-- An evaluation that fails for a name does not find the name. -/
theorem evaluate_misses (text : String) :
    FailsIn (EvalError.Misses L.symbols) (evaluate L text) := by
  cases hsplit : split (Text.strip text.toList) with
  | none =>
    rw [evaluate_of_split_none hsplit]
    exact .error trivial
  | some ps =>
    rw [evaluate_of_split hsplit]
    exact (FailsIn.mapM resolvePiece_misses ps).bind reduceTerms_misses

end Expr

/-- The evaluation error behind a decoding error is in `Q`, if there is one. -/
def DecodeError.SourceFails (Q : EvalError → Prop) (e : DecodeError) : Prop :=
  ∀ source, e.source? = some source → Q source

namespace StorageOperand

variable [TypeCatalog] {L : Lookups}

theorem evaluateCount_misses (outOfRange : Int64 → Failure) (text : List Char) :
    FailsIn (EvalError.Misses L.symbols) (evaluateCount L outOfRange text) := by
  refine (Expr.evaluate_misses (String.ofList text)).bind fun o => ?_
  split
  · exact .error trivial
  · split
    · exact .ok _
    · exact .error trivial

theorem takeDuplication_misses (text : List Char) :
    FailsIn (DecodeError.SourceFails (EvalError.Misses L.symbols)) (takeDuplication L text) := by
  unfold takeDuplication
  split
  · cases splitGroup text with
    | none => exact .error fun _ h => nomatch h
    | some group =>
      dsimp only
      cases hcount : evaluateCount L .duplicationOutOfRange group.1 with
      | ok count => exact .ok _
      | error e =>
        refine .error ?_
        rintro _ ⟨⟩
        exact evaluateCount_misses _ _ e hcount
  · dsimp only
    split
    · exact .ok _
    · split
      · exact .ok _
      · exact .error fun _ h => nomatch h

theorem takeType_misses (text : List Char) :
    FailsIn (DecodeError.SourceFails (EvalError.Misses σ)) (takeType text) := by
  unfold takeType
  dsimp only
  split
  · exact .ok _
  · exact .error fun _ h => nomatch h

theorem lengthModifier_misses (operand text : List Char) :
    FailsIn (EvalError.Misses L.symbols) (lengthModifier L operand text) := by
  unfold lengthModifier
  split
  · cases splitGroup text with
    | none => exact .error trivial
    | some group => exact evaluateCount_misses _ _
  · dsimp only
    split
    · exact .ok _
    · exact .error trivial

theorem takeLength_misses (operand : List Char) (type : TypeCode) (text : List Char) :
    FailsIn (DecodeError.SourceFails (EvalError.Misses L.symbols))
      (takeLength L operand type text) := by
  have hmodifier : ∀ rest, FailsIn (DecodeError.SourceFails (EvalError.Misses L.symbols))
      ((lengthModifier L operand rest).mapError .length) := fun rest =>
    (lengthModifier_misses operand rest).mapError _ fun e he => by
      rintro _ ⟨⟩
      exact he
  unfold takeLength
  split
  · exact hmodifier _
  · exact hmodifier _
  · exact .ok _

/-- Decoding that fails for a name does not find the name. -/
theorem decode_misses (operand : String) :
    FailsIn (DecodeError.SourceFails (EvalError.Misses L.symbols)) (decode L operand) := by
  unfold decode
  refine (takeDuplication_misses _).bind fun ⟨count, rest⟩ => ?_
  refine (takeType_misses rest).bind fun ⟨type, rest'⟩ => ?_
  exact (takeLength_misses _ type rest').bind fun _ => .ok _

end StorageOperand

namespace Expr

variable [TypeCatalog] {P : EvalError → Prop} {L L' : Lookups}

theorem resolveToken_agreeUnless (hc : L'.counter = L.counter) (hr : L'.registers = L.registers)
    (h : ∀ name, L.symbols.AgreeUnless P L'.symbols name) (token : Token) :
    AgreeUnless P (resolveToken L token) (resolveToken L' token) := by
  cases token with
  | symbol name => exact (resolveField_agreeUnless fun n _ => h n).bind fun _ _ => .refl _
  | literal code payload => exact (resolveField_agreeUnless fun n _ => h n).bind fun _ _ => .refl _
  | counter => exact .inl (by rw [resolveToken, hc]; rfl)
  | register name number => exact .inl (by rw [resolveToken, hr]; rfl)
  | decimal value => exact .refl _
  | operator sign => exact .refl _
  | leftParen => exact .refl _
  | rightParen => exact .refl _
  | comma => exact .refl _

/-- More symbols change no outcome of tokens but that of an undefined name. -/
theorem evaluateTokens_extends (hc : L'.counter = L.counter) (hr : L'.registers = L.registers)
    (hs : L'.symbols.Extends L.symbols) (tokens : List Token) :
    AgreeUnless EvalError.IsUndefined (evaluateTokens L tokens) (evaluateTokens L' tokens) := by
  refine AgreeUnless.bind (.mapM fun token _ => ?_) fun _ _ => .refl _
  exact resolveToken_agreeUnless hc hr hs.agreeUnless token

end Expr

namespace Symbols

/-- The symbols with every name defined. -/
def filled (σ : Symbols) : Symbols where
  displacement name := some ((σ.displacement name).getD 0)
  length name := some ((σ.length name).getD 0)

theorem filled_extends (σ : Symbols) : σ.filled.Extends σ := by
  constructor
  · intro name n hn
    simp only [filled, hn, Option.getD_some]
  · intro name n hn
    simp only [filled, hn, Option.getD_some]

/-- Where every name is defined, no failure is an undefined name. -/
theorem isForwardReference_of_misses_filled {e : EvalError} (h : e.Misses σ.filled) :
    e.isForwardReference = false := by
  cases e with
  | invalidSymbolKey name => cases h
  | invalidLengthKey name => cases h
  | _ => rfl

end Symbols

/-- A new name leaves all others alone. -/
theorem SymbolMap.extends_insert {m : SymbolMap} {name : String} (h : m.find? name = none)
    (values : Int64 × Int64) : (SymbolMap.symbols (m.insert name values)).Extends m.symbols := by
  have hfind : ∀ other found, m.find? other = some found →
      (m.insert name values).find? other = some found := by
    intro other found hother
    rw [NameMap.find?_insert, if_neg, hother]
    intro hsame
    rw [NameMap.find?, hsame] at hother
    exact absurd (hother.symm.trans h) (Option.some_ne_none found)
  constructor
  · intro other n hn
    obtain ⟨found, hfound, rfl⟩ := Option.map_eq_some_iff.1 hn
    exact Option.map_eq_some_iff.2 ⟨found, hfind other found hfound, rfl⟩
  · intro other n hn
    obtain ⟨found, hfound, rfl⟩ := Option.map_eq_some_iff.1 hn
    exact Option.map_eq_some_iff.2 ⟨found, hfind other found hfound, rfl⟩

theorem DecodeError.sourceFails_iff {e : DecodeError} :
    e.SourceFails (fun source => source.isForwardReference = false) ↔
      e.isForwardReference = false ∧
        ∀ text source, e = .duplicationExpression text source →
          source.isForwardReference = false := by
  cases e <;> simp [SourceFails, source?, isForwardReference]

/-- Whatever the counter, the registers and the type codes: an operand text and a storage operand
keep their outcome in all symbols that extend the given ones if and only if it is no undefined name,
be it the one behind the error. So do tokens if theirs is none; the name of a register stays
undefined. -/
theorem Symbols.outcomes_extends [TypeCatalog] (σ : Symbols) (counter : Int64)
    (registers : Option (String → Option UInt8)) :
    let reading (σ : Symbols) : Lookups := ⟨counter, σ, registers⟩
    (∀ text,
      (∀ e, Expr.evaluate (reading σ) text = .error e → e.isForwardReference = false) ↔
        ∀ σ' : Symbols, σ'.Extends σ →
          Expr.evaluate (reading σ') text = Expr.evaluate (reading σ) text) ∧
      (∀ tokens,
        (∀ e, Expr.evaluateTokens (reading σ) tokens = .error e → e.isForwardReference = false) →
          ∀ σ' : Symbols, σ'.Extends σ →
            Expr.evaluateTokens (reading σ') tokens = Expr.evaluateTokens (reading σ) tokens) ∧
      ∀ operand,
        (∀ e, StorageOperand.decode (reading σ) operand = .error e → e.isForwardReference = false ∧
            ∀ text source, e = .duplicationExpression text source →
              source.isForwardReference = false) ↔
          ∀ σ' : Symbols, σ'.Extends σ →
            StorageOperand.decode (reading σ') operand =
              StorageOperand.decode (reading σ) operand := by
  intro reading
  have hundefined : ∀ e : EvalError, e.IsUndefined → ¬ e.isForwardReference = false :=
    fun e he hnot => Bool.false_ne_true (hnot.symm.trans he)
  refine ⟨fun text => ⟨fun hfails σ' hσ => ?_, fun hkeeps e he => ?_⟩,
    fun tokens hfails σ' hσ => ?_,
    fun operand => ⟨fun hfails σ' hσ => ?_, fun hkeeps e he => ?_⟩⟩
  · refine AgreeUnless.eq_of_failsIn ?_ hfails hundefined
    exact Expr.evaluate_extends (fun _ => rfl) hσ
  · rw [← hkeeps σ.filled σ.filled_extends] at he
    exact isForwardReference_of_misses_filled (Expr.evaluate_misses text e he)
  · refine AgreeUnless.eq_of_failsIn ?_ hfails hundefined
    refine Expr.evaluateTokens_extends ?_ ?_ hσ tokens
    · rfl
    · rfl
  · refine AgreeUnless.eq_of_failsIn (P := DecodeError.SourceIn EvalError.IsUndefined) ?_
      (fun e he => DecodeError.sourceFails_iff.2 (hfails e he)) ?_
    · refine StorageOperand.decode_extends ?_ hσ
      rfl
    · rintro e ⟨source, hsource, hP⟩ hnone
      exact hundefined source hP (hnone source hsource)
  · rw [← hkeeps σ.filled σ.filled_extends] at he
    refine DecodeError.sourceFails_iff.1 fun source hsource => ?_
    have hmisses := StorageOperand.decode_misses operand e he source hsource
    exact isForwardReference_of_misses_filled hmisses

/-- A second name changes neither a product, nor a division by zero, nor a length of a type that is
not in the fixed catalog. -/
theorem Symbols.outcomes_extends_second :
    let catalog : TypeCatalog := ⟨fun code => if code = "Q" then some .f else none, fun _ => 16⟩
    let first := SymbolMap.symbols (NameMap.empty.insert "A" (5, 3))
    let second := SymbolMap.symbols ((NameMap.empty.insert "A" (5, 3)).insert "B" (7, 2))
    second.Extends first ∧
      Expr.evaluate ⟨0, second, none⟩ "2*A+L'A" = .ok ⟨.int 13, none⟩ ∧
      Expr.evaluateTokens ⟨0, second, none⟩ [.symbol "A", .operator '/', .decimal 0] =
        .error (.evaluationFailed .divisionByZero) ∧
      @StorageOperand.decode catalog ⟨0, second, none⟩ "(A)QL(L'A)" = .ok ⟨5, .f, 3⟩ := by
  intro catalog first second
  have hextends : second.Extends first := SymbolMap.extends_insert (by decide +kernel) (7, 2)
  obtain ⟨htexts, htokens, -⟩ := Symbols.outcomes_extends first 0 none
  obtain ⟨-, -, hoperands⟩ := @Symbols.outcomes_extends catalog first 0 none
  have htext : Expr.evaluate ⟨0, first, none⟩ "2*A+L'A" = .ok ⟨.int 13, none⟩ := by decide +kernel
  have hdivision : Expr.evaluateTokens ⟨0, first, none⟩ [.symbol "A", .operator '/', .decimal 0] =
      .error (.evaluationFailed .divisionByZero) := by decide +kernel
  have hdecode : @StorageOperand.decode catalog ⟨0, first, none⟩ "(A)QL(L'A)" = .ok ⟨5, .f, 3⟩ := by
    decide +kernel
  refine ⟨hextends, ?_, ?_, ?_⟩
  · refine ((htexts _).1 (fun e he => ?_) second hextends).trans htext
    rw [htext] at he
    cases he
  · refine (htokens _ (fun e he => ?_) second hextends).trans hdivision
    rw [hdivision] at he
    cases he
    rfl
  · refine ((hoperands _).1 (fun e he => ?_) second hextends).trans hdecode
    rw [hdecode] at he
    cases he

end AsmLayout
