import AsmLayout.Proofs.Expr.Brackets
import AsmLayout.Storage

/-!
# Parentheses in storage operands

A storage operand is divided at closing parentheses without making tokens of it. What closes is told
by counting, and what is quoted by the characters just before an apostrophe. Main statements:
`StorageOperand.closeGroup_written` (over a text that divides into tokens, the count is that of the
tokens) and `StorageOperand.splitGroup_of_scan` (an operand with balanced parentheses is divided
behind the parenthesis that stands after it).
-/

namespace AsmLayout.StorageOperand

open AsmLayout.Token

variable {registers : String → Option UInt8} {tokens : List Token} {token : Token}
  {before cs text spelling code payload rest : List Char} {c : Char} {depth m n : Nat}

/-- The character read last, if any, is not one of a name. -/
def Detached (before : List Char) : Prop := ∀ c ∈ before.head?, isNameChar c = false

/-- Neither a parenthesis nor an apostrophe. -/
def IsOrdinary (c : Char) : Prop := c ≠ '\'' ∧ c ≠ '(' ∧ c ≠ ')'

instance (c : Char) : Decidable (IsOrdinary c) :=
  inferInstanceAs (Decidable (c ≠ '\'' ∧ c ≠ '(' ∧ c ≠ ')'))

theorem IsOrdinary.of_isNameChar (h : isNameChar c = true) : IsOrdinary c :=
  ⟨ne_of_isNameChar h (by decide), ne_of_isNameChar h (by decide), ne_of_isNameChar h (by decide)⟩

theorem IsOrdinary.of_isSpace (h : isSpace c = true) : IsOrdinary c := by
  refine ⟨?_, ?_, ?_⟩ <;>
  · rintro rfl
    exact absurd h (by decide)

theorem closeGroup_ordinary (h : ∀ c ∈ cs, IsOrdinary c) :
    closeGroup depth false before (cs ++ rest) =
      closeGroup depth false (cs.reverse ++ before) rest := by
  induction cs generalizing before with
  | nil => rfl
  | cons c cs ih =>
    obtain ⟨hquote, hopen, hclose⟩ := h c List.mem_cons_self
    have hstep : closeGroup depth false before (c :: (cs ++ rest)) =
        closeGroup depth false (c :: before) (cs ++ rest) := by
      rw [closeGroup.eq_def]
      dsimp only
      rw [if_neg (by simpa using hquote), if_neg Bool.false_ne_true, if_neg (by simpa using hopen),
        if_neg (by simpa using hclose)]
    rw [List.cons_append, hstep, ih fun d hd => h d (List.mem_cons_of_mem c hd),
      List.reverse_cons, List.append_assoc]
    rfl

theorem closeGroup_ordinary_one (h : IsOrdinary c) :
    closeGroup depth false before ([c] ++ rest) =
      closeGroup depth false ([c].reverse ++ before) rest :=
  closeGroup_ordinary fun d hd => by rw [List.mem_singleton.1 hd]; exact h

theorem closeGroup_names (h : ∀ c ∈ cs, isNameChar c = true) :
    closeGroup depth false before (cs ++ rest) =
      closeGroup depth false (cs.reverse ++ before) rest :=
  closeGroup_ordinary fun c hc => .of_isNameChar (h c hc)

theorem closeGroup_gap (h : IsGap cs) :
    closeGroup depth false before (cs ++ rest) =
      closeGroup depth false (cs.reverse ++ before) rest :=
  closeGroup_ordinary fun c hc => .of_isSpace (h c hc)

theorem afterLengthCode_letter (hc : c = 'L' ∨ c = 'l') (h : Detached before) :
    afterLengthCode (c :: before) = true := by
  have hletter : (c == 'L' || c == 'l') = true := by rcases hc with rfl | rfl <;> rfl
  cases before with
  | nil => exact hletter
  | cons d ds =>
    rw [afterLengthCode, hletter, h d rfl]
    rfl

theorem afterLengthCode_name (hname : IsName code) (hcode : code ≠ ['L'] ∧ code ≠ ['l']) :
    afterLengthCode (code.reverse ++ before) = false := by
  obtain ⟨init, c, rfl⟩ : ∃ init c, code = init ++ [c] := by
    rcases List.eq_nil_or_concat code with hnil | ⟨init, c, hc⟩
    · exact absurd hnil hname.ne_nil
    · exact ⟨init, c, by rw [hc, List.concat_eq_append]⟩
  rw [List.reverse_append, List.reverse_singleton]
  rcases List.eq_nil_or_concat init with rfl | ⟨init', d, rfl⟩
  · -- a name of one letter is not the letter of a length
    have hletter : (c == 'L' || c == 'l') = false := by
      have hL : c ≠ 'L' := fun h => hcode.1 (by rw [h]; rfl)
      have hl : c ≠ 'l' := fun h => hcode.2 (by rw [h]; rfl)
      simp [hL, hl]
    cases before with
    | nil => exact hletter
    | cons e es =>
      show ((c == 'L' || c == 'l') && !isNameChar e) = false
      rw [hletter]
      rfl
  · -- in a longer name, a character of names stands before its last letter
    have hd : isNameChar d = true := hname.chars d (by simp)
    rw [List.concat_eq_append, List.reverse_append]
    show ((c == 'L' || c == 'l') && !isNameChar d) = false
    rw [hd]
    exact Bool.and_false _

theorem closeGroup_apostrophe {isQuoted : Bool} :
    closeGroup depth isQuoted before ('\'' :: rest) =
      closeGroup depth (!isQuoted && !afterLengthCode before) ('\'' :: before) rest := by
  rw [closeGroup.eq_def]
  rfl

theorem afterLengthCode_apostrophe : afterLengthCode ('\'' :: before) = false := by
  cases before <;> rfl

theorem closeGroup_payload : closeGroup depth true before (Text.doubled payload ++ '\'' :: rest) =
    closeGroup depth false ('\'' :: ((Text.doubled payload).reverse ++ before)) rest := by
  induction payload generalizing before with
  | nil => rfl
  | cons c payload ih =>
    by_cases hc : c = '\''
    · subst hc
      -- the first of two apostrophes ends the quotes, the second begins them again
      have hdoubled : Text.doubled ('\'' :: payload) = '\'' :: '\'' :: Text.doubled payload := rfl
      rw [hdoubled, List.cons_append, List.cons_append, closeGroup_apostrophe,
        closeGroup_apostrophe, afterLengthCode_apostrophe]
      show closeGroup depth true _ (Text.doubled payload ++ '\'' :: rest) = _
      rw [ih]
      simp
    · have hstep : closeGroup depth true before (c :: (Text.doubled payload ++ '\'' :: rest)) =
          closeGroup depth true (c :: before) (Text.doubled payload ++ '\'' :: rest) := by
        rw [closeGroup.eq_def]
        dsimp only
        rw [if_neg (by simpa using hc), if_pos rfl]
      rw [Text.doubled, if_neg hc, List.cons_append, hstep, ih, List.reverse_cons,
        List.append_assoc]
      rfl

/-- Over the spelling of a token, the open parentheses are counted as the token counts. -/
theorem closeGroup_spelling (h : Spells registers tokens token spelling)
    (hdetached : token.isRun = true → Detached before) (hstep : token.bracket.step m = some n) :
    closeGroup (m + 1) false before (spelling ++ rest) =
      closeGroup (n + 1) false (spelling.reverse ++ before) rest := by
  cases h with
  | decimal hne hdigits hvalue =>
    cases hstep
    exact closeGroup_names fun c hc => isNameChar_of_isDigit (hdigits c hc)
  | register hname _ | symbol hname _ => cases hstep; exact closeGroup_names hname.chars
  | @lengthOf c field hc hne hfield =>
    cases hstep
    have hletter : ∀ d ∈ [c], isNameChar d = true := by
      rintro d hd
      rw [List.mem_singleton.1 hd]
      exact (isName_lengthCode hc).1.chars c List.mem_cons_self
    show closeGroup (m + 1) false before ([c] ++ ('\'' :: (field ++ rest))) = _
    rw [closeGroup_names hletter, List.reverse_singleton, List.singleton_append,
      closeGroup_apostrophe, afterLengthCode_letter hc (hdetached rfl)]
    show closeGroup (m + 1) false _ (field ++ rest) = _
    rw [closeGroup_names hfield]
    simp
  | @literal code payload hname hcode =>
    cases hstep
    rw [List.append_assoc, closeGroup_names hname.chars, List.cons_append,
      closeGroup_apostrophe, afterLengthCode_name hname hcode, List.append_assoc]
    show closeGroup (m + 1) true _ (Text.doubled payload ++ '\'' :: rest) = _
    rw [closeGroup_payload]
    simp
  | leftParen => cases hstep; rfl
  | rightParen =>
    cases m with
    | zero => cases hstep
    | succ m => cases hstep; rfl
  | comma | counter | times => cases hstep; exact closeGroup_ordinary_one (by decide)
  | sign hc =>
    cases hstep
    rcases hc with rfl | rfl | rfl <;> exact closeGroup_ordinary_one (by decide)

/-- Where an operand may follow without a gap, no name is open. -/
theorem detached_of_written (h : Written registers tokens text) (hbefore : Detached before)
    (hfree : ∀ last ∈ tokens.getLast?, last.isOperand = false ∧ last ≠ .rightParen) :
    Detached (text.reverse ++ before) := by
  cases h with
  | nil => exact hbefore
  | @concat _ token _ gap spelling _ _ _ hspells =>
    obtain ⟨hoperand, hright⟩ := hfree token (by simp)
    rw [List.reverse_append, List.reverse_append]
    intro c hc
    cases hspells with
    | decimal | register | symbol | lengthOf | literal | counter => cases hoperand
    | rightParen => exact absurd rfl hright
    | leftParen | comma | times => cases hc; rfl
    | sign hsign => cases hc; rcases hsign with rfl | rfl | rfl <;> rfl

/-- Over a text that divides into tokens, the open parentheses are counted as the tokens count. -/
theorem closeGroup_written (h : Written registers tokens text) (hbefore : Detached before)
    (hdepth : Bracket.depth? m (tokens.map Token.bracket) = some n) :
    closeGroup (m + 1) false before (text ++ rest) =
      closeGroup (n + 1) false (text.reverse ++ before) rest := by
  induction h generalizing n rest with
  | nil => cases hdepth; rfl
  | @concat tokens token text gap spelling hwritten hgap hneeds hspells ih =>
    rw [List.map_append, List.map_singleton, Bracket.depth?_concat] at hdepth
    obtain ⟨k, hk, hstep⟩ := hdepth
    have hdetached : token.isRun = true → Detached (gap.reverse ++ (text.reverse ++ before)) := by
      intro hrun
      by_cases hnil : gap = []
      · -- without a gap, the token does not follow an operand
        rw [hnil]
        show Detached (text.reverse ++ before)
        refine detached_of_written hwritten hbefore fun last hlast => ?_
        by_contra hcontra
        refine hneeds ⟨hrun, last, hlast, ?_⟩ hnil
        rcases Bool.eq_false_or_eq_true last.isOperand with hoperand | hoperand
        · exact .inl hoperand
        · exact .inr (by_contra fun hne => hcontra ⟨hoperand, hne⟩)
      · obtain ⟨init, d, rfl⟩ := List.eq_nil_or_concat gap |>.resolve_left hnil
        have hd : isSpace d = true := hgap d (by simp)
        intro c hc
        obtain rfl : d = c := by simpa using hc
        by_contra hname
        rw [isSpace_of_isNameChar (by simpa using hname)] at hd
        cases hd
    rw [List.append_assoc, ih hk, List.append_assoc, closeGroup_gap hgap,
      closeGroup_spelling hspells hdetached hstep]
    simp

/-- An operand whose tokens close all parentheses is divided off by the parentheses around it. -/
theorem splitGroup_of_scan {operand : String} (h : scan registers operand = .ok tokens)
    (hbalanced : Bracket.Balanced (tokens.map Token.bracket)) (rest : List Char) :
    splitGroup ('(' :: (operand.toList ++ ')' :: rest)) =
      some ('(' :: (operand.toList ++ [')']), rest) := by
  obtain ⟨text, gap, htext, hgap, hwritten⟩ := written_of_scan h
  have hopen : Detached ['('] := by rintro c ⟨⟩; rfl
  show closeGroup 1 false ['('] (operand.toList ++ ')' :: rest) = _
  rw [htext, List.append_assoc, closeGroup_written hwritten hopen hbalanced, closeGroup_gap hgap]
  show some ((')' :: (gap.reverse ++ (text.reverse ++ ['(']))).reverse, rest) = _
  simp

end AsmLayout.StorageOperand
