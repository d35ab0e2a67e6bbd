import AsmLayout.Proofs.Expr.Formula
import AsmLayout.Proofs.Token.Simulation

/-!
# Splitting the text of a formula

Where each piece of a text may follow those before it, the text is split into these pieces
(`Expr.split_of_spaced`). Main statement: `Expr.Formula.Writes.fit` (so it is with the pieces of a
formula).
-/

namespace AsmLayout

/-- A type code is a name, and not that of a length. -/
theorem isName_of_ofCode? {code : List Char} {type : TypeCode}
    (h : TypeCode.ofCode? (String.ofList code) = some type) :
    IsName code ∧ isLengthCode (String.ofList code) = false := by
  have hletters : type.code.toList ≠ [] ∧ ∀ c ∈ type.code.toList, c.isAlpha = true := by
    cases type <;> simp [TypeCode.code]
  have hlength : (type.code == Text.upperAscii "L") = false := by
    cases type <;> decide
  have hupper : type.code = Text.upperAscii (String.ofList code) := by
    simpa using List.find?_some h
  have hstart : ∀ c ∈ code, isNameStart c = true := by
    intro c hc
    have halpha : c.toUpper.isAlpha = true := by
      refine hletters.2 _ ?_
      rw [hupper, Text.upperAscii_ofList, String.toList_ofList]
      exact List.mem_map_of_mem hc
    rw [Char.isAlpha_toUpper_eq_isAlpha] at halpha
    simp [isNameStart, halpha]
  constructor
  · refine ⟨?_, fun c hc => isNameChar_of_isNameStart (hstart c hc)⟩
    cases code with
    | nil => simp [hupper, Text.upperAscii] at hletters
    | cons c cs => exact ⟨c, cs, rfl, hstart c (by simp)⟩
  · rw [isLengthCode, Text.sameAsciiLetters, ← hupper]
    exact hlength

namespace Expr

namespace Splitter

variable {σ : Splitter} {pieces before ps : List Piece} {current cs text : List Char} {c : Char}

/-- Outside of quotes, with the given pieces once the open operand has ended. -/
structure Holds (σ : Splitter) (ps : List Piece) : Prop where
  quoting : σ.quoting = .outside ∨ σ.quoting = .apostrophe ∧ σ.current ≠ []
  pieces : flushed σ.pieces σ.current = ps

theorem holds_outside : (⟨pieces, current, .outside⟩ : Splitter).Holds (flushed pieces current) :=
  ⟨.inl rfl, rfl⟩

theorem Holds.step (h : σ.Holds ps) (hc : c ≠ '\'') :
    ∃ pieces current, σ.step c = stepOutside pieces current c ∧ flushed pieces current = ps := by
  obtain ⟨pieces, current, quoting⟩ := σ
  obtain ⟨hquoting, hpieces⟩ := h
  dsimp only at hquoting hpieces
  refine ⟨pieces, current, ?_, hpieces⟩
  rcases hquoting with rfl | ⟨rfl, -⟩
  · rfl
  · simp [Splitter.step, hc]

theorem Holds.blanks (h : σ.Holds ps) (hcs : ∀ c ∈ cs, Text.isBlank c = true) :
    (cs.foldl Splitter.step σ).Holds ps := by
  induction cs generalizing σ with
  | nil => exact h
  | cons c cs ih =>
    have hc : Text.isBlank c = true := hcs c (by simp)
    have hquote : c ≠ '\'' := by
      rintro rfl
      revert hc
      decide
    obtain ⟨pieces, current, hstep, hflushed⟩ := h.step hquote
    rw [List.foldl_cons, hstep, stepOutside_of_isBlank hc, hflushed]
    exact ih holds_outside fun d hd => hcs d (by simp [hd])

theorem operandMayBegin_operand : operandMayBegin (pieces ++ [.operand text]) = false := by
  simp [operandMayBegin]

/-- Where an operand may begin, none is open. -/
theorem Holds.eq_of_operandMayBegin (h : σ.Holds ps) (hbegin : operandMayBegin ps = true) :
    σ = ⟨ps, [], .outside⟩ := by
  obtain ⟨pieces, current, quoting⟩ := σ
  obtain ⟨hquoting, hpieces⟩ := h
  dsimp only at hquoting hpieces
  cases current with
  | nil =>
    rcases hquoting with rfl | ⟨-, hne⟩
    · rw [← hpieces]; rfl
    · exact absurd rfl hne
  | cons d ds =>
    rw [← hpieces] at hbegin
    rw [show flushed pieces (d :: ds) = pieces ++ [.operand (d :: ds)] from rfl,
      operandMayBegin_operand] at hbegin
    cases hbegin

theorem Holds.mark {piece : Piece} (h : σ.Holds ps) (hc : c ≠ '\'')
    (hmark : ∀ pieces current, flushed pieces current = ps →
      stepOutside pieces current c = ⟨flushed pieces current ++ [piece], [], .outside⟩) :
    (σ.step c).Holds (ps ++ [piece]) := by
  obtain ⟨pieces, current, hstep, hflushed⟩ := h.step hc
  rw [hstep, hmark pieces current hflushed, hflushed]
  exact holds_outside

theorem Holds.leftParen (h : σ.Holds ps) : (σ.step '(').Holds (ps ++ [.leftParen]) :=
  h.mark (by decide) fun _ _ _ => rfl

theorem Holds.rightParen (h : σ.Holds ps) : (σ.step ')').Holds (ps ++ [.rightParen]) :=
  h.mark (by decide) fun _ _ _ => rfl

theorem Holds.addSign (h : σ.Holds ps) (sign : AddSign) :
    (σ.step sign.char).Holds (ps ++ [.operator sign.char]) := by
  cases sign <;> exact h.mark (by decide) fun _ _ _ => rfl

/-- The sign `*` is one where no operand may begin. -/
theorem Holds.mulSign (h : σ.Holds ps) (hbegin : operandMayBegin ps = false) (sign : MulSign) :
    (σ.step sign.char).Holds (ps ++ [.operator sign.char]) := by
  cases sign with
  | divide => exact h.mark (by decide) fun _ _ _ => rfl
  | times =>
    refine h.mark (by decide) fun pieces current hflushed => ?_
    cases current with
    | nil =>
      have hpieces : operandMayBegin pieces = false := by rw [← hflushed] at hbegin; exact hbegin
      simp [stepOutside, hpieces, MulSign.char]
    | cons d ds => rfl

theorem foldl_isNameChar (h : ∀ c ∈ cs, isNameChar c = true) :
    cs.foldl Splitter.step ⟨pieces, current, .outside⟩ = ⟨pieces, current ++ cs, .outside⟩ := by
  induction cs generalizing current with
  | nil => simp
  | cons c cs ih =>
    have hstep : Splitter.step ⟨pieces, current, .outside⟩ c = ⟨pieces, current ++ [c], .outside⟩ :=
      stepOutside_of_isNameChar (h c (by simp))
    rw [List.foldl_cons, hstep, ih fun d hd => h d (by simp [hd]), List.append_assoc]
    rfl

/-- A payload is kept, its pairs of apostrophes with it. -/
theorem foldl_doubled {payload : List Char} :
    (Text.doubled payload).foldl Splitter.step ⟨pieces, current, .inside⟩ =
      ⟨pieces, current ++ Text.doubled payload, .inside⟩ := by
  induction payload generalizing current with
  | nil => simp [Text.doubled]
  | cons c payload ih =>
    by_cases hc : c = '\''
    · subst hc
      have hpair : ['\'', '\''].foldl Splitter.step ⟨pieces, current, .inside⟩ =
          ⟨pieces, current ++ ['\''] ++ ['\''], .inside⟩ := rfl
      show (['\'', '\''] ++ Text.doubled payload).foldl Splitter.step _ = _
      rw [List.foldl_append, hpair, ih]
      simp [Text.doubled]
    · have hstep : Splitter.step ⟨pieces, current, .inside⟩ c =
          ⟨pieces, current ++ [c], .inside⟩ := by
        simp [Splitter.step, hc]
      rw [Text.doubled, if_neg hc, List.foldl_cons, hstep, ih, List.append_assoc]
      rfl

theorem step_apostrophe :
    Splitter.step ⟨pieces, current, .outside⟩ '\'' = ⟨pieces, current ++ ['\''],
      if isLengthCode (String.ofList current) then .outside else .inside⟩ := rfl

theorem holds_operand {quoting : Quoting} (hquoting : quoting = .outside ∨ quoting = .apostrophe)
    (hne : text ≠ []) : (⟨ps, text, quoting⟩ : Splitter).Holds (ps ++ [.operand text]) :=
  ⟨hquoting.imp_right fun h => ⟨h, hne⟩, Token.flushed_of_ne hne⟩

theorem holds_name (h : ∀ c ∈ cs, isNameChar c = true) (hne : cs ≠ []) :
    (cs.foldl Splitter.step ⟨ps, [], .outside⟩).Holds (ps ++ [.operand cs]) := by
  rw [foldl_isNameChar h]
  exact holds_operand (.inl rfl) hne

/-- A quoted payload is kept whole, whatever characters it has. -/
theorem holds_doubled {code : List Char} {type : TypeCode}
    (hcode : TypeCode.ofCode? (String.ofList code) = some type) (payload : List Char) :
    ((code ++ '\'' :: (Text.doubled payload ++ ['\''])).foldl Splitter.step
      ⟨ps, [], .outside⟩).Holds
      (ps ++ [.operand (code ++ '\'' :: (Text.doubled payload ++ ['\'']))]) := by
  obtain ⟨hname, hlength⟩ := isName_of_ofCode? hcode
  rw [List.foldl_append, foldl_isNameChar hname.chars, List.foldl_cons, step_apostrophe,
    List.nil_append, hlength, if_neg Bool.false_ne_true, List.foldl_append, foldl_doubled,
    List.foldl_cons, List.foldl_nil]
  have hclose : Splitter.step ⟨ps, code ++ ['\''] ++ Text.doubled payload, .inside⟩ '\'' =
      ⟨ps, code ++ '\'' :: (Text.doubled payload ++ ['\'']), .apostrophe⟩ := by
    simp [Splitter.step]
  rw [hclose]
  exact holds_operand (.inr rfl) (by simp)

theorem holds_quoted {code payload : List Char} {type : TypeCode}
    (hcode : TypeCode.ofCode? (String.ofList code) = some type) (h : ∀ c ∈ payload, c ≠ '\'') :
    ((code ++ '\'' :: (payload ++ ['\''])).foldl Splitter.step ⟨ps, [], .outside⟩).Holds
      (ps ++ [.operand (code ++ '\'' :: (payload ++ ['\'']))]) := by
  have hdoubled := @holds_doubled ps code type hcode payload
  rwa [Text.doubled_of_ne h] at hdoubled

end Splitter

open Splitter

theorem ne_apostrophe_of_isHexDigit {c : Char} (h : Text.isHexDigit c = true) : c ≠ '\'' := by
  rintro rfl
  revert h
  decide

theorem ne_apostrophe_of_signed {digits : List Char} (hdigits : ∀ c ∈ digits, c.isDigit = true)
    {sign : Option AddSign} : ∀ c ∈ (sign.map AddSign.char).toList ++ digits, c ≠ '\'' := by
  intro c hc
  rcases List.mem_append.1 hc with hc | hc
  · cases sign with
    | none => cases hc
    | some sign =>
      obtain rfl : c = sign.char := by simpa using hc
      cases sign <;> decide
  · exact ne_apostrophe_of_isHexDigit (by simp [Text.isHexDigit, hdigits c hc])

variable {ps qs before : List Piece} {text : List Char} {l : Leaf} {e : Formula} {place : Place}

/-- A leaf is kept whole. -/
theorem Leaf.Spells.holds (h : l.Spells text) (hbegin : operandMayBegin ps = true) :
    (text.foldl Splitter.step ⟨ps, [], .outside⟩).Holds (ps ++ [.operand text]) := by
  cases h with
  | constant hne hdigits => exact holds_name (fun c hc => isNameChar_of_isDigit (hdigits c hc)) hne
  | symbol hname => exact holds_name hname.chars hname.ne_nil
  | @lengthOf c name hc hname =>
    obtain ⟨hcode, hlength⟩ := isName_lengthCode hc
    have hcode : Splitter.step ⟨ps, [], .outside⟩ c = ⟨ps, [c], .outside⟩ :=
      stepOutside_of_isNameChar (hcode.chars c (by simp))
    rw [List.foldl_cons, hcode, List.foldl_cons, step_apostrophe, hlength, if_pos rfl,
      foldl_isNameChar hname.chars]
    exact holds_operand (.inl rfl) (by simp)
  | hexadecimal hcode hne hdigits =>
    exact holds_quoted hcode fun c hc => ne_apostrophe_of_isHexDigit (hdigits c hc)
  | decimal hcode htype hne hdigits => exact holds_quoted hcode (ne_apostrophe_of_signed hdigits)
  | counter =>
    have hstep : Splitter.step ⟨ps, [], .outside⟩ '*' = ⟨ps, ['*'], .outside⟩ := by
      simp [Splitter.step, stepOutside, hbegin]
    rw [List.foldl_cons, hstep]
    exact holds_operand (.inl rfl) (by simp)

/-- The piece may follow the pieces `before`. -/
inductive Follows (before : List Piece) : Piece → Prop
  | operand {l : Leaf} {text : List Char} (h : l.Spells text)
      (hbegin : operandMayBegin before = true) : Follows before (.operand text)
  | addSign (sign : AddSign) : Follows before (.operator sign.char)
  | mulSign (sign : MulSign) (hbegin : operandMayBegin before = false) :
      Follows before (.operator sign.char)
  | leftParen : Follows before .leftParen
  | rightParen : Follows before .rightParen

/-- Each of the pieces may follow those before it. -/
def Fit (before : List Piece) : List Piece → Prop
  | [] => True
  | piece :: ps => Follows before piece ∧ Fit (before ++ [piece]) ps

theorem fit_append : Fit before (ps ++ qs) ↔ Fit before ps ∧ Fit (before ++ ps) qs := by
  induction ps generalizing before with
  | nil => simp [Fit]
  | cons piece ps ih => simp [Fit, ih, and_assoc]

theorem Follows.holds {σ : Splitter} {piece : Piece} (h : Follows before piece)
    (hσ : σ.Holds before) :
    (piece.text.foldl Splitter.step σ).Holds (before ++ [piece]) := by
  cases h with
  | operand h hbegin =>
    rw [hσ.eq_of_operandMayBegin hbegin]
    exact h.holds hbegin
  | addSign sign => exact hσ.addSign sign
  | mulSign sign hbegin => exact hσ.mulSign hbegin sign
  | leftParen => exact hσ.leftParen
  | rightParen => exact hσ.rightParen

theorem Spaced.holds {σ : Splitter} (h : Spaced ps text) (hfit : Fit before ps)
    (hσ : σ.Holds before) : (text.foldl Splitter.step σ).Holds (before ++ ps) := by
  induction h generalizing before σ with
  | nil hgap =>
    rw [List.append_nil]
    exact hσ.blanks hgap
  | cons hgap _ ih =>
    rw [List.foldl_append, List.foldl_append, List.append_cons]
    exact ih hfit.2 (hfit.1.holds (hσ.blanks hgap))

theorem split_of_holds {σ : Splitter} {ps : List Piece}
    (h : text.foldl Splitter.step Splitter.start = σ) (hσ : σ.Holds ps) : split text = some ps := by
  obtain ⟨hquoting, hpieces⟩ := hσ
  unfold split
  rw [h]
  rcases hquoting with hq | ⟨hq, -⟩
  · simp only [hq, hpieces]
  · simp only [hq, hpieces]

theorem split_of_spaced (h : Spaced ps text) (hfit : Fit [] ps) : split text = some ps :=
  split_of_holds rfl (h.holds hfit holds_outside)

theorem operandMayBegin_operator {c : Char} : operandMayBegin (ps ++ [.operator c]) = true := by
  simp [operandMayBegin]

theorem fit_join {c : Char} (hleft : Fit before ps) (hsign : Follows (before ++ ps) (.operator c))
    (hright : Fit (before ++ ps ++ [.operator c]) qs ∧
      operandMayBegin (before ++ ps ++ [.operator c] ++ qs) = false) :
    Fit before (ps ++ .operator c :: qs) ∧
      operandMayBegin (before ++ (ps ++ .operator c :: qs)) = false := by
  refine ⟨fit_append.2 ⟨hleft, hsign, hright.1⟩, ?_⟩
  rw [← List.append_assoc, List.append_cons]
  exact hright.2

/-- A formula stands where an operand may begin, and no operand may begin behind it. -/
theorem Formula.Writes.fit (h : e.Writes place ps) (hbegin : operandMayBegin before = true) :
    Fit before ps ∧ operandMayBegin (before ++ ps) = false := by
  induction h generalizing before with
  | leaf h => exact ⟨⟨.operand h hbegin, trivial⟩, operandMayBegin_operand⟩
  | @signed place sign e ps h ih =>
    have hsign : operandMayBegin (before ++ [.operator sign.char]) = true := operandMayBegin_operator
    obtain ⟨hfit, hend⟩ := ih hsign
    rw [List.append_cons]
    exact ⟨⟨.addSign sign, hfit⟩, hend⟩
  | sum _ _ ihl ihr =>
    exact fit_join (ihl hbegin).1 (.addSign _) (ihr operandMayBegin_operator)
  | product _ _ _ ihl ihr =>
    -- behind the left factor a `*` is a sign
    obtain ⟨hleft, hmiddle⟩ := ihl hbegin
    exact fit_join hleft (.mulSign _ hmiddle) (ihr operandMayBegin_operator)
  | @wrapped place e ps _ ih =>
    have hopen : operandMayBegin (before ++ [.leftParen]) = true := by simp [operandMayBegin]
    obtain ⟨hfit, -⟩ := ih hopen
    refine ⟨⟨.leftParen, fit_append.2 ⟨hfit, .rightParen, trivial⟩⟩, ?_⟩
    rw [List.append_cons, ← List.append_assoc]
    unfold operandMayBegin
    rw [List.getLast?_concat]

end Expr
end AsmLayout
