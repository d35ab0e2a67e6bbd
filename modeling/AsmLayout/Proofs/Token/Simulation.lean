import AsmLayout.Proofs.Token.Agreement

/-!
# Two readings of an operand

`Token.scan` and `Expr.split` read an operand a character at a time. Where the scanner finds neither
a register nor a comma, the splitter is in a matching state all the way (`Token.Sim.step`), so that
both end in tokens and pieces that agree. Main statement: `Token.exists_split_of_scan`.
-/

namespace AsmLayout.Token

open Scanner AsmLayout.Expr AsmLayout.Expr.Splitter

/-- Neither a register nor a comma. -/
def isPlain : Token → Bool
  | register _ _ | comma => false
  | _ => true

variable {registers : String → Option UInt8} {tokens tokens' : List Token} {pieces : List Piece}
  {current : List Char} {c : Char} {s s' : Scanner} {σ : Splitter} {position : Nat} {blank : Bool}

theorem agrees_concat {token : Token} {piece : Piece} (h : List.Forall₂ Agrees tokens pieces)
    (hlast : Agrees token piece) : List.Forall₂ Agrees (tokens ++ [token]) (pieces ++ [piece]) :=
  List.rel_append h (.cons hlast .nil)

theorem getLast?_agrees (h : List.Forall₂ Agrees tokens pieces) :
    tokens.getLast? = none ∧ pieces.getLast? = none ∨
      ∃ token piece, tokens.getLast? = some token ∧ pieces.getLast? = some piece ∧
        Agrees token piece := by
  induction h with
  | nil => exact .inl ⟨rfl, rfl⟩
  | @cons token piece tokens pieces hone htail ih =>
    cases htail with
    | nil => exact .inr ⟨token, piece, rfl, rfl, hone⟩
    | cons => exact .inr (by simpa using ih)

/-- The sign `*` is the counter for both or a multiplication for both. -/
theorem star_eq (h : List.Forall₂ Agrees tokens pieces) :
    Scanner.star tokens = if operandMayBegin pieces then .counter else .operator '*' := by
  unfold Scanner.star operandMayBegin
  rcases getLast?_agrees h with ⟨ht, hp⟩ | ⟨token, piece, ht, hp, hlast⟩
  · rw [ht, hp]; rfl
  · rw [ht, hp]; cases hlast <;> rfl

theorem afterOperand_of_operand {text : List Char}
    (h : List.Forall₂ Agrees tokens (pieces ++ [.operand text])) : afterOperand tokens = true := by
  unfold afterOperand
  rcases getLast?_agrees h with ⟨-, hp⟩ | ⟨token, piece, ht, hp, hlast⟩
  · simp at hp
  · rw [List.getLast?_concat, Option.some.injEq] at hp
    subst hp
    rw [ht]
    cases hlast <;> rfl

theorem flushed_of_ne (h : current ≠ []) : flushed pieces current = pieces ++ [.operand current] := by
  cases current with
  | nil => exact absurd rfl h
  | cons => rfl

/-- The outcomes of a character that no open run takes. -/
inductive Begins (tokens : List Token) (position : Nat) (blank : Bool) (c : Char) : Scanner → Prop
  | space (hc : isSpace c = true) : Begins tokens position blank c ⟨tokens, position + 1, .gap true⟩
  | leftParen (hc : c = '(') :
      Begins tokens position blank c ⟨tokens ++ [.leftParen], position + 1, .gap false⟩
  | rightParen (hc : c = ')') :
      Begins tokens position blank c ⟨tokens ++ [.rightParen], position + 1, .gap false⟩
  | comma (hc : c = ',') :
      Begins tokens position blank c ⟨tokens ++ [.comma], position + 1, .gap false⟩
  | sign (hc : c = '+' ∨ c = '-' ∨ c = '/') :
      Begins tokens position blank c ⟨tokens ++ [.operator c], position + 1, .gap false⟩
  | star (hc : c = '*') :
      Begins tokens position blank c ⟨tokens ++ [Scanner.star tokens], position + 1, .gap false⟩
  | number (hc : c.isDigit = true) (hfree : afterOperand tokens = true → blank = true) :
      Begins tokens position blank c ⟨tokens, position + 1, .number [c]⟩
  | name (hc : isNameStart c = true) (hfree : afterOperand tokens = true → blank = true) :
      Begins tokens position blank c ⟨tokens, position + 1, .name position [c]⟩

theorem begins_of_begin (h : begin tokens position blank c = .ok s') :
    Begins tokens position blank c s' := by
  unfold begin at h
  dsimp only at h
  split at h
  · cases h
  next hsep =>
  have hfree : isNameChar c = true → afterOperand tokens = true → blank = true := by
    intro hc hafter
    by_contra hblank
    exact hsep (by simp [hc, hafter, hblank])
  split at h
  · next hc => cases h; rw [List.append_nil]; exact .space hc
  split at h
  · next hc => cases h; exact .leftParen (eq_of_beq hc)
  split at h
  · next hc => cases h; exact .rightParen (eq_of_beq hc)
  split at h
  · next hc => cases h; exact .comma (eq_of_beq hc)
  split at h
  · next hc => cases h; exact .sign (by simpa [or_assoc] using hc)
  split at h
  · next hc => cases h; exact .star (eq_of_beq hc)
  split at h
  · next hc =>
    cases h
    rw [List.append_nil]
    exact .number hc (hfree (isNameChar_of_isDigit hc))
  split at h
  · next hc =>
    cases h
    rw [List.append_nil]
    exact .name hc (hfree (isNameChar_of_isNameStart hc))
  · cases h

/-! ### Matching states -/

/-- What the splitter holds while the scanner is in the middle of a run. -/
inductive Reads : Run → List Char → Quoting → Prop
  | gap (blank : Bool) : Reads (.gap blank) [] .outside
  | number {digits : List Char} (hne : digits ≠ []) (hdigits : ∀ c ∈ digits, c.isDigit = true) :
      Reads (.number digits) digits .outside
  | name {start : Nat} {chars : List Char} (hname : IsName chars) :
      Reads (.name start chars) chars .outside
  | lengthOf {start : Nat} {code field : List Char} (hname : IsName code)
      (hfield : ∀ c ∈ field, isNameChar c = true) :
      Reads (.attribute start code field) (code ++ '\'' :: field) .outside
  | literal {start : Nat} {code payload : List Char} (hname : IsName code) :
      Reads (.literal start code payload) (code ++ '\'' :: Text.doubled payload) .inside
  | apostrophe {start : Nat} {code payload : List Char} (hname : IsName code) :
      Reads (.apostrophe start code payload) (code ++ '\'' :: (Text.doubled payload ++ ['\'']))
        .apostrophe

/-- The states of the scanner and the splitter after the same characters. A counter is a token at
once, but stays open as a piece. -/
inductive Sim (s : Scanner) (σ : Splitter) : Prop
  | run (hrun : Reads s.run σ.current σ.quoting) (hagree : List.Forall₂ Agrees s.tokens σ.pieces)
  | star (hrun : s.run = .gap false) (hcurrent : σ.current = ['*']) (hquoting : σ.quoting = .outside)
      (hagree : List.Forall₂ Agrees s.tokens (flushed σ.pieces ['*']))

/-- The end of a run adds the token that agrees with the piece that ends there. -/
theorem Reads.close {run : Run} {quoting : Quoting} (h : Reads run current quoting)
    (hagree : List.Forall₂ Agrees tokens pieces)
    (hclose : Scanner.close registers ⟨tokens, position, run⟩ = .ok tokens')
    (hplain : ∀ token ∈ tokens', token.isPlain = true) :
    quoting ≠ .inside ∧ List.Forall₂ Agrees tokens' (flushed pieces current) := by
  cases h with
  | gap blank => cases hclose; exact ⟨nofun, hagree⟩
  | @number digits hne hdigits =>
    unfold Scanner.close at hclose
    rw [flushed_of_ne hne]
    dsimp only at hclose
    split at hclose
    · next value hvalue =>
      cases hclose
      exact ⟨nofun, agrees_concat hagree (.decimal hne hdigits hvalue)⟩
    · cases hclose
  | @name start chars hname =>
    unfold Scanner.close named at hclose
    cases hclose
    refine ⟨nofun, ?_⟩
    have hlast := hplain _ (List.mem_append_right _ (List.mem_singleton_self _))
    split at hlast
    · cases hlast
    · next hfind =>
      rw [flushed_of_ne hname.ne_nil]
      exact agrees_concat hagree (.symbol hname)
  | @lengthOf start code field hname hfield =>
    unfold Scanner.close at hclose
    dsimp only at hclose
    split at hclose
    · cases hclose
    · cases hclose
      rw [flushed_of_ne (by simp)]
      exact ⟨nofun, agrees_concat hagree (.lengthOf hname hfield)⟩
  | literal hname => cases hclose
  | apostrophe hname =>
    cases hclose
    rw [flushed_of_ne (by simp)]
    exact ⟨nofun, agrees_concat hagree (.literal hname)⟩

/-- Both readers take a character that begins something the same way. -/
theorem Sim.begin (hagree : List.Forall₂ Agrees tokens (flushed pieces current))
    (hopen : current ≠ [] → blank = false) (h : Scanner.begin tokens position blank c = .ok s')
    (hplain : ∀ token ∈ s'.tokens, token.isPlain = true) :
    Sim s' (stepOutside pieces current c) := by
  have hafter : current ≠ [] → afterOperand tokens = true := by
    intro hne
    rw [flushed_of_ne hne] at hagree
    exact afterOperand_of_operand hagree
  -- nothing else may follow an operand directly
  have hfree : (afterOperand tokens = true → blank = true) → current = [] := by
    intro hblank
    by_contra hne
    rw [hblank (hafter hne)] at hopen
    cases hopen hne
  cases begins_of_begin h with
  | space hc =>
    rw [stepOutside_of_isBlank (isBlank_of_isSpace hc)]
    exact .run (.gap true) hagree
  | leftParen hc =>
    subst hc
    exact .run (.gap false) (agrees_concat hagree .leftParen)
  | rightParen hc =>
    subst hc
    exact .run (.gap false) (agrees_concat hagree .rightParen)
  | comma hc => cases hplain .comma (List.mem_append_right _ (List.mem_singleton_self _))
  | sign hc =>
    have hstep : stepOutside pieces current c =
        ⟨flushed pieces current ++ [.operator c], [], .outside⟩ := by
      rcases hc with rfl | rfl | rfl <;> rfl
    rw [hstep]
    exact .run (.gap false) (agrees_concat hagree (.operator c))
  | star hc =>
    subst hc
    rw [star_eq hagree]
    by_cases hne : current = []
    · subst hne
      by_cases hmay : operandMayBegin pieces = true
      · have hstep : stepOutside pieces [] '*' = ⟨pieces, ['*'], .outside⟩ := by
          simp [stepOutside, hmay]
        rw [hstep]
        refine .star rfl rfl rfl ?_
        have hcounter : operandMayBegin (flushed pieces []) = true := hmay
        rw [if_pos hcounter]
        exact agrees_concat hagree .counter
      · have hstep : stepOutside pieces [] '*' = ⟨pieces ++ [.operator '*'], [], .outside⟩ := by
          simp [stepOutside, hmay, flushed]
        have hoperator : ¬ operandMayBegin (flushed pieces []) = true := hmay
        rw [hstep, if_neg hoperator]
        exact .run (.gap false) (agrees_concat hagree (.operator '*'))
    · have hstep : stepOutside pieces current '*' =
          ⟨flushed pieces current ++ [.operator '*'], [], .outside⟩ := by
        simp [stepOutside, hne]
      have hoperator : ¬ operandMayBegin (flushed pieces current) = true := by
        rw [flushed_of_ne hne]; simp [operandMayBegin]
      rw [hstep, if_neg hoperator]
      exact .run (.gap false) (agrees_concat hagree (.operator '*'))
  | number hc hblank =>
    obtain rfl := hfree hblank
    rw [stepOutside_of_isNameChar (isNameChar_of_isDigit hc)]
    exact .run (.number (by simp) (by simpa using hc)) hagree
  | name hc hblank =>
    obtain rfl := hfree hblank
    rw [stepOutside_of_isNameChar (isNameChar_of_isNameStart hc)]
    exact .run (.name (.of_isNameStart hc)) hagree

theorem subset_begin (h : Scanner.begin tokens position blank c = .ok s') : tokens ⊆ s'.tokens := by
  cases begins_of_begin h <;> first
    | exact List.Subset.refl _
    | exact List.subset_append_left _ _

theorem close_cases (h : s.close registers = .ok tokens') :
    tokens' = s.tokens ∨ ∃ token, tokens' = s.tokens ++ [token] := by
  unfold Scanner.close at h
  split at h
  · cases h; exact .inl rfl
  · split at h <;> cases h
    exact .inr ⟨_, rfl⟩
  · cases h; exact .inr ⟨_, rfl⟩
  · split at h <;> cases h
    exact .inr ⟨_, rfl⟩
  · cases h
  · cases h; exact .inr ⟨_, rfl⟩

theorem subset_close (h : s.close registers = .ok tokens') : s.tokens ⊆ tokens' := by
  rcases close_cases h with rfl | ⟨token, rfl⟩
  · exact List.Subset.refl _
  · exact List.subset_append_left _ _

/-- What a character does that the open run does not take. -/
def ended (registers : String → Option UInt8) (s : Scanner) (c : Char) :
    Except TokenError Scanner := do
  Scanner.begin (← s.close registers) s.position false c

theorem ended_eq_ok (h : ended registers s c = .ok s') :
    ∃ tokens, s.close registers = .ok tokens ∧
      Scanner.begin tokens s.position false c = .ok s' := by
  unfold ended at h
  cases hclose : s.close registers with
  | error e => rw [hclose] at h; cases h
  | ok tokens => rw [hclose] at h; exact ⟨tokens, rfl, h⟩

/-- The outcomes of a character: a run goes on, or it ends and the character begins something. -/
theorem step_cases (h : Scanner.step registers s c = .ok s') :
    (∃ run, s' = ⟨s.tokens, s.position + 1, run⟩) ∨
      (∃ blank, s.run = .gap blank ∧ Scanner.begin s.tokens s.position blank c = .ok s') ∨
      ended registers s c = .ok s' := by
  unfold Scanner.step at h
  dsimp only at h
  split at h
  · next blank hrun => exact .inr (.inl ⟨blank, hrun, h⟩)
  · split at h
    · cases h; exact .inl ⟨_, rfl⟩
    · exact .inr (.inr h)
  · split at h
    · cases h; exact .inl ⟨_, rfl⟩
    split at h
    · split at h <;> cases h <;> exact .inl ⟨_, rfl⟩
    · exact .inr (.inr h)
  · split at h
    · cases h; exact .inl ⟨_, rfl⟩
    · exact .inr (.inr h)
  · split at h <;> cases h <;> exact .inl ⟨_, rfl⟩
  · split at h
    · cases h; exact .inl ⟨_, rfl⟩
    · exact .inr (.inr h)

theorem subset_step (h : Scanner.step registers s c = .ok s') : s.tokens ⊆ s'.tokens := by
  rcases step_cases h with ⟨run, rfl⟩ | ⟨blank, -, hbegin⟩ | hended
  · exact List.Subset.refl _
  · exact subset_begin hbegin
  · obtain ⟨tokens, hclose, hbegin⟩ := ended_eq_ok hended
    exact List.Subset.trans (subset_close hclose) (subset_begin hbegin)

theorem Sim.ended {run : Run} {quoting : Quoting} (hrun : Reads run current quoting)
    (hagree : List.Forall₂ Agrees tokens pieces)
    (h : ended registers ⟨tokens, position, run⟩ c = .ok s')
    (hplain : ∀ token ∈ s'.tokens, token.isPlain = true) :
    Sim s' (stepOutside pieces current c) := by
  obtain ⟨tokens', hclose, hbegin⟩ := ended_eq_ok h
  have hclosed := hrun.close hagree hclose fun token ht => hplain token (subset_begin hbegin ht)
  exact .begin hclosed.2 (fun _ => rfl) hbegin hplain

/-- Matching states match after a further character. -/
theorem Sim.step (hsim : Sim s σ) (h : Scanner.step registers s c = .ok s')
    (hplain : ∀ token ∈ s'.tokens, token.isPlain = true) : Sim s' (σ.step c) := by
  obtain ⟨tokens, position, run⟩ := s
  obtain ⟨pieces, current, quoting⟩ := σ
  cases hsim with
  | star hrun hcurrent hquoting hagree =>
    cases hrun
    cases hcurrent
    cases hquoting
    exact .begin hagree (fun _ => rfl) h hplain
  | run hrun hagree =>
    dsimp only at hrun hagree
    have hended : Token.ended registers ⟨tokens, position, run⟩ c = .ok s' →
        Sim s' (stepOutside pieces current c) := fun h => .ended hrun hagree h hplain
    unfold Scanner.step at h
    cases hrun with
    | gap blank => exact .begin hagree (fun hne => absurd rfl hne) h hplain
    | number hne hdigits =>
      show Sim s' (stepOutside pieces current c)
      dsimp only at h
      split at h
      · next hc =>
        cases h
        rw [stepOutside_of_isNameChar (isNameChar_of_isDigit hc)]
        refine .run (.number (by simp) ?_) hagree
        simpa [or_imp, forall_and, hc] using hdigits
      · exact hended h
    | name hname =>
      show Sim s' (stepOutside pieces current c)
      dsimp only at h
      split at h
      · next hc =>
        cases h
        rw [stepOutside_of_isNameChar hc]
        exact .run (.name (hname.append hc)) hagree
      split at h
      · next hquote =>
        obtain rfl := eq_of_beq hquote
        split at h
        · next hlength =>
          cases h
          rw [stepOutside, if_pos hquote, if_pos hlength]
          exact .run (.lengthOf hname (by simp)) hagree
        · next hlength =>
          cases h
          rw [stepOutside, if_pos hquote, if_neg hlength]
          exact .run (.literal hname) hagree
      · exact hended h
    | lengthOf hname hfield =>
      show Sim s' (stepOutside pieces _ c)
      dsimp only at h
      split at h
      · next hc =>
        cases h
        rw [stepOutside_of_isNameChar hc, List.append_assoc, List.cons_append]
        refine .run (.lengthOf hname ?_) hagree
        simpa [or_imp, forall_and, hc] using hfield
      · exact hended h
    | @literal start code payload hname =>
      dsimp only at h
      split at h
      · next hquote =>
        cases h
        obtain rfl := eq_of_beq hquote
        refine .run ?_ hagree
        show Reads _ ((code ++ '\'' :: Text.doubled payload) ++ ['\'']) .apostrophe
        rw [List.append_assoc, List.cons_append]
        exact .apostrophe hname
      · next hquote =>
        cases h
        refine .run ?_ hagree
        have hdoubled : Text.doubled (payload ++ [c]) = Text.doubled payload ++ [c] := by
          have hc : ∀ d ∈ [c], d ≠ '\'' := by simpa using hquote
          rw [Text.doubled_append, Text.doubled_of_ne hc]
        rw [Splitter.step]
        simp only [hquote]
        show Reads _ ((code ++ '\'' :: Text.doubled payload) ++ [c]) .inside
        rw [List.append_assoc, List.cons_append, ← hdoubled]
        exact .literal hname
    | @apostrophe start code payload hname =>
      dsimp only at h
      split at h
      · next hquote =>
        cases h
        obtain rfl := eq_of_beq hquote
        refine .run ?_ hagree
        -- the apostrophe that seemed to close the literal stands for itself
        have hdoubled : Text.doubled (payload ++ ['\'']) =
            Text.doubled payload ++ ['\'', '\''] := Text.doubled_append payload ['\'']
        show Reads _ ((code ++ '\'' :: (Text.doubled payload ++ ['\''])) ++ ['\'']) .inside
        rw [List.append_assoc, List.cons_append, List.append_assoc, List.cons_append,
          List.nil_append, ← hdoubled]
        exact .literal hname
      · next hquote =>
        show Sim s' (Splitter.step ⟨_, _, .apostrophe⟩ c)
        rw [Splitter.step]
        simp only [hquote]
        exact hended h

theorem foldlM_concat_eq_ok {cs : List Char}
    (h : (cs ++ [c]).foldlM (Scanner.step registers) Scanner.start = .ok s') :
    ∃ s, cs.foldlM (Scanner.step registers) Scanner.start = .ok s ∧
      Scanner.step registers s c = .ok s' := by
  rw [List.foldlM_append] at h
  cases hs : cs.foldlM (Scanner.step registers) Scanner.start with
  | error e => rw [hs] at h; cases h
  | ok s =>
    rw [hs] at h
    refine ⟨s, rfl, ?_⟩
    change (Scanner.step registers s c >>= fun s => .ok s) = .ok s' at h
    cases hstep : Scanner.step registers s c with
    | error e => rw [hstep] at h; cases h
    | ok s'' => rw [hstep] at h; exact h

theorem sim_foldlM (cs : List Char)
    (h : cs.foldlM (Scanner.step registers) Scanner.start = .ok s)
    (hplain : ∀ token ∈ s.tokens, token.isPlain = true) :
    Sim s (cs.foldl Splitter.step Splitter.start) := by
  -- from the right, since the tokens of a shorter text are among those of a longer one
  induction cs using List.reverseRecOn generalizing s with
  | nil => cases h; exact .run (.gap false) .nil
  | append_singleton cs c ih =>
    obtain ⟨s₀, hs₀, hstep⟩ := foldlM_concat_eq_ok h
    rw [List.foldl_append]
    exact (ih hs₀ fun token ht => hplain token (subset_step hstep ht)).step hstep hplain

/-- An operand that divides into tokens, none of them a register or a comma, divides into pieces
that agree with them. -/
theorem exists_split_of_scan {operand : String} (h : scan registers operand = .ok tokens)
    (hplain : ∀ token ∈ tokens, token.isPlain = true) :
    ∃ pieces, split operand.toList = some pieces ∧ List.Forall₂ Agrees tokens pieces := by
  unfold scan at h
  cases hs : operand.toList.foldlM (Scanner.step registers) Scanner.start with
  | error e => rw [hs] at h; cases h
  | ok s =>
    rw [hs] at h
    have hclose : s.close registers = .ok tokens := h
    have hsim := sim_foldlM operand.toList hs fun token ht => hplain token (subset_close hclose ht)
    unfold split
    generalize operand.toList.foldl Splitter.step Splitter.start = σ at hsim
    cases hsim with
    | star hrun hcurrent hquoting hagree =>
      obtain ⟨tokens', position, run⟩ := s
      cases hrun
      cases hclose
      exact ⟨_, by simp only [hquoting, hcurrent], hagree⟩
    | run hrun hagree =>
      obtain ⟨hclosed, hall⟩ := hrun.close hagree hclose hplain
      refine ⟨_, ?_, hall⟩
      cases hquoting : σ.quoting with
      | inside => exact absurd hquoting hclosed
      | outside => simp only [hquoting]
      | apostrophe => simp only [hquoting]

end AsmLayout.Token
