import AsmLayout.Proofs.Token.Simulation

/-!
# The grammar of operands

An operand is a list of tokens, each spelled in one of its ways, with gaps of blanks and tabs around
them (`Token.Written`). A gap may be empty, but not where two tokens would run into each other.
Main statement: `Token.Reached.step` (what the scanner has read is always the writing of its tokens,
a gap and the beginning of a spelling).
-/

namespace AsmLayout

namespace Token

open Scanner

/-- Blanks and tabs. -/
def IsGap (cs : List Char) : Prop := ∀ c ∈ cs, isSpace c = true

/-- A `*` after the given tokens stands for the location counter: it is the first token or follows
an operator, a comma or an opening parenthesis. -/
def CounterFits (before : List Token) : Prop :=
  ∀ last ∈ before.getLast?, (∃ sign, last = .operator sign) ∨ last = .comma ∨ last = .leftParen

/-- A number, a name or a literal: what would run into an operand directly before it. -/
def isRun : Token → Bool
  | decimal _ | register _ _ | symbol _ | literal _ _ => true
  | counter | operator _ | leftParen | rightParen | comma => false

/-- A number, a name or a literal that follows an operand or a closing parenthesis. -/
def NeedsGap (before : List Token) (token : Token) : Prop :=
  token.isRun = true ∧ ∃ last ∈ before.getLast?, last.isOperand = true ∨ last = .rightParen

/-- The ways to spell a token after the tokens `before`. Names that `registers` knows are registers,
all others symbols. -/
inductive Spells (registers : String → Option UInt8) (before : List Token) :
    Token → List Char → Prop
  | decimal {digits : List Char} {value : Int64} (hne : digits ≠ [])
      (hdigits : ∀ c ∈ digits, c.isDigit = true)
      (hvalue : value.toInt = Text.digitsValue 10 digits) :
      Spells registers before (.decimal value) digits
  | register {chars : List Char} {number : UInt8} (hname : IsName chars)
      (hfind : registers (String.ofList chars) = some number) :
      Spells registers before (.register (String.ofList chars) number) chars
  | symbol {chars : List Char} (hname : IsName chars)
      (hfind : registers (String.ofList chars) = none) :
      Spells registers before (.symbol (String.ofList chars)) chars
  | lengthOf {c : Char} {field : List Char} (hc : c = 'L' ∨ c = 'l') (hne : field ≠ [])
      (hfield : ∀ c ∈ field, isNameChar c = true) :
      Spells registers before (.literal "L" (String.ofList field)) (c :: '\'' :: field)
  | literal {code payload : List Char} (hname : IsName code) (hcode : code ≠ ['L'] ∧ code ≠ ['l']) :
      Spells registers before (quoted code payload)
        (code ++ '\'' :: (Text.doubled payload ++ ['\'']))
  | leftParen : Spells registers before .leftParen ['(']
  | rightParen : Spells registers before .rightParen [')']
  | comma : Spells registers before .comma [',']
  | sign {c : Char} (hc : c = '+' ∨ c = '-' ∨ c = '/') :
      Spells registers before (.operator c) [c]
  | counter (hfits : CounterFits before) : Spells registers before .counter ['*']
  | times (hfits : ¬ CounterFits before) : Spells registers before (.operator '*') ['*']

/-- The text is the tokens, each spelled after a gap. -/
inductive Written (registers : String → Option UInt8) : List Token → List Char → Prop
  | nil : Written registers [] []
  | concat {before : List Token} {token : Token} {text gap spelling : List Char}
      (hbefore : Written registers before text) (hgap : IsGap gap)
      (hneeds : NeedsGap before token → gap ≠ [])
      (hspells : Spells registers before token spelling) :
      Written registers (before ++ [token]) (text ++ (gap ++ spelling))

variable {registers : String → Option UInt8} {tokens tokens' before : List Token} {token : Token}
  {text gap spelling read : List Char} {c : Char} {s s' : Scanner} {run : Run} {position : Nat}
  {blank : Bool}

theorem isGap_nil : IsGap [] := by simp [IsGap]

theorem IsGap.concat (h : IsGap gap) (hc : isSpace c = true) : IsGap (gap ++ [c]) := by
  intro d hd
  rcases List.mem_append.1 hd with hd | hd
  · exact h d hd
  · rw [List.mem_singleton.1 hd]; exact hc

theorem afterOperand_iff : afterOperand tokens = true ↔
    ∃ last ∈ tokens.getLast?, last.isOperand = true ∨ last = .rightParen := by
  unfold afterOperand
  cases tokens.getLast? <;> simp

theorem not_needsGap (h : CounterFits tokens) : ¬ NeedsGap tokens token := by
  rintro ⟨-, last, hlast, hend⟩
  rcases h last hlast with ⟨sign, rfl⟩ | rfl | rfl <;> simp [isOperand] at hend

theorem not_needsGap_of_not_isRun (h : token.isRun = false) : ¬ NeedsGap tokens token := by
  rintro ⟨hrun, -⟩
  rw [h] at hrun
  cases hrun

theorem star_of_counterFits (h : CounterFits tokens) : Scanner.star tokens = .counter := by
  unfold Scanner.star
  unfold CounterFits at h
  cases hlast : tokens.getLast? with
  | none => rfl
  | some last =>
    rcases h last hlast with ⟨sign, rfl⟩ | rfl | rfl <;> rfl

theorem star_of_not_counterFits (h : ¬ CounterFits tokens) :
    Scanner.star tokens = .operator '*' := by
  unfold Scanner.star
  unfold CounterFits at h
  cases hlast : tokens.getLast? with
  | none => exact absurd (by simp [hlast]) h
  | some last => cases last <;> first | rfl | exact absurd (by simp [hlast]) h

theorem spells_star : Spells registers tokens (Scanner.star tokens) ['*'] := by
  by_cases h : CounterFits tokens
  · rw [star_of_counterFits h]; exact .counter h
  · rw [star_of_not_counterFits h]; exact .times h

/-- The characters of a run that is still open. -/
inductive Opens : Run → List Char → Prop
  | number {digits : List Char} (hne : digits ≠ []) (hdigits : ∀ c ∈ digits, c.isDigit = true) :
      Opens (.number digits) digits
  | name {start : Nat} {chars : List Char} (hname : IsName chars) : Opens (.name start chars) chars
  | lengthOf {start : Nat} {code field : List Char}
      (hcode : isLengthCode (String.ofList code) = true)
      (hfield : ∀ c ∈ field, isNameChar c = true) :
      Opens (.attribute start code field) (code ++ '\'' :: field)
  | literal {start : Nat} {code payload : List Char} (hname : IsName code)
      (hcode : ¬ isLengthCode (String.ofList code) = true) :
      Opens (.literal start code payload) (code ++ '\'' :: Text.doubled payload)
  | apostrophe {start : Nat} {code payload : List Char} (hname : IsName code)
      (hcode : ¬ isLengthCode (String.ofList code) = true) :
      Opens (.apostrophe start code payload) (code ++ '\'' :: (Text.doubled payload ++ ['\'']))

/-- A run that ends makes the token that its characters spell. -/
theorem Opens.close (h : Opens run spelling)
    (hclose : Scanner.close registers ⟨tokens, position, run⟩ = .ok tokens') :
    ∃ token, tokens' = tokens ++ [token] ∧ token.isRun = true ∧
      Spells registers tokens token spelling := by
  unfold Scanner.close at hclose
  cases h with
  | @number digits hne hdigits =>
    dsimp only at hclose
    split at hclose
    · next value hvalue =>
      cases hclose
      exact ⟨_, rfl, rfl, .decimal hne hdigits (int64?_eq_some_iff.1 hvalue)⟩
    · cases hclose
  | @name start chars hname =>
    cases hclose
    unfold named
    split
    · next number hfind => exact ⟨_, rfl, rfl, .register hname hfind⟩
    · next hfind => exact ⟨_, rfl, rfl, .symbol hname hfind⟩
  | @lengthOf start code field hcode hfield =>
    dsimp only at hclose
    split at hclose
    · cases hclose
    · next hne =>
      cases hclose
      have hne' : field ≠ [] := by simpa using hne
      rcases isLengthCode_iff.1 hcode with rfl | rfl
      · exact ⟨_, rfl, rfl, .lengthOf (.inl rfl) hne' hfield⟩
      · exact ⟨_, rfl, rfl, .lengthOf (.inr rfl) hne' hfield⟩
  | literal hname hcode => cases hclose
  | apostrophe hname hcode =>
    cases hclose
    exact ⟨_, rfl, rfl, .literal hname (not_or.1 (isLengthCode_iff.not.1 hcode))⟩

/-- The scanner has read the writing of its tokens and then a gap, or a gap and the beginning of one
more spelling. -/
inductive Reached (registers : String → Option UInt8) (s : Scanner) (read : List Char) : Prop
  | gap {blank : Bool} {text gap : List Char} (hrun : s.run = .gap blank)
      (hblank : blank = true → gap ≠ []) (hwritten : Written registers s.tokens text)
      (hgap : IsGap gap) (hread : read = text ++ gap)
  | run {text gap spelling : List Char} (hopens : Opens s.run spelling)
      (hfree : afterOperand s.tokens = true → gap ≠ []) (hwritten : Written registers s.tokens text)
      (hgap : IsGap gap) (hread : read = text ++ (gap ++ spelling))

theorem Reached.close (h : Reached registers s read) (hclose : s.close registers = .ok tokens) :
    ∃ text gap, read = text ++ gap ∧ IsGap gap ∧ Written registers tokens text := by
  obtain ⟨tokens₀, position, run⟩ := s
  cases h with
  | gap hrun hblank hwritten hgap hread =>
    cases hrun
    cases hclose
    exact ⟨_, _, hread, hgap, hwritten⟩
  | run hopens hfree hwritten hgap hread =>
    obtain ⟨token, rfl, -, hspells⟩ := hopens.close hclose
    refine ⟨read, [], by simp, isGap_nil, ?_⟩
    rw [hread]
    exact .concat hwritten hgap (fun hneeds => hfree (afterOperand_iff.2 hneeds.2)) hspells

/-- A character that no open run takes begins something in every case but an error. -/
theorem Reached.begin (hwritten : Written registers tokens text) (hgap : IsGap gap)
    (hblank : blank = true → gap ≠ []) (h : Scanner.begin tokens position blank c = .ok s') :
    Reached registers s' (text ++ (gap ++ [c])) := by
  have hmark : ∀ token : Token, token.isRun = false → Spells registers tokens token [c] →
      Reached registers ⟨tokens ++ [token], position + 1, .gap false⟩ (text ++ (gap ++ [c])) := by
    intro token hrun hspells
    have hneeds : NeedsGap tokens token → gap ≠ [] := fun h => by rw [h.1] at hrun; cases hrun
    have hwritten' := Written.concat hwritten hgap hneeds hspells
    exact .gap rfl (by simp) hwritten' isGap_nil (List.append_nil _).symm
  cases begins_of_begin h with
  | space hc => exact .gap rfl (by simp) hwritten (hgap.concat hc) rfl
  | leftParen hc => subst hc; exact hmark _ rfl .leftParen
  | rightParen hc => subst hc; exact hmark _ rfl .rightParen
  | comma hc => subst hc; exact hmark _ rfl .comma
  | sign hc => exact hmark _ rfl (.sign hc)
  | star hc =>
    subst hc
    refine hmark _ ?_ spells_star
    by_cases hfits : CounterFits tokens
    · rw [star_of_counterFits hfits]; rfl
    · rw [star_of_not_counterFits hfits]; rfl
  | number hc hfree =>
    exact .run (.number (by simp) (by simpa using hc)) (fun h => hblank (hfree h)) hwritten hgap rfl
  | name hc hfree =>
    exact .run (.name (.of_isNameStart hc)) (fun h => hblank (hfree h)) hwritten hgap rfl

theorem Reached.ended (h : Reached registers s read) (hended : ended registers s c = .ok s') :
    Reached registers s' (read ++ [c]) := by
  obtain ⟨tokens, hclose, hbegin⟩ := ended_eq_ok hended
  obtain ⟨text, gap, rfl, hgap, hwritten⟩ := h.close hclose
  rw [List.append_assoc]
  exact .begin hwritten hgap (by simp) hbegin

theorem doubled_concat (payload : List Char) (hc : c ≠ '\'') :
    Text.doubled (payload ++ [c]) = Text.doubled payload ++ [c] := by
  have hone : ∀ d ∈ [c], d ≠ '\'' := by simpa using hc
  rw [Text.doubled_append, Text.doubled_of_ne hone]

/-- Reading one more character keeps the account of what has been read. -/
theorem Reached.step (h : Reached registers s read)
    (hstep : Scanner.step registers s c = .ok s') : Reached registers s' (read ++ [c]) := by
  have hended : Token.ended registers s c = .ok s' → Reached registers s' (read ++ [c]) := h.ended
  obtain ⟨tokens, position, run⟩ := s
  unfold Scanner.step at hstep
  cases h with
  | gap hrun hblank hwritten hgap hread =>
    cases hrun
    rw [hread, List.append_assoc]
    exact .begin hwritten hgap hblank hstep
  | @run text gap spelling hopens hfree hwritten hgap hread =>
    -- a run that goes on is longer by the character
    have hlonger : ∀ run', Opens run' (spelling ++ [c]) →
        Reached registers ⟨tokens, position + 1, run'⟩ (read ++ [c]) := by
      intro run' hopens'
      exact .run hopens' hfree hwritten hgap (by simp [hread])
    cases hopens with
    | number hne hdigits =>
      dsimp only at hstep
      split at hstep
      · next hc =>
        cases hstep
        exact hlonger _ (.number (by simp) (by simpa [or_imp, forall_and, hc] using hdigits))
      · exact hended hstep
    | name hname =>
      dsimp only at hstep
      split at hstep
      · next hc => cases hstep; exact hlonger _ (.name (hname.append hc))
      split at hstep
      · next hquote =>
        obtain rfl := eq_of_beq hquote
        split at hstep
        · next hcode => cases hstep; exact hlonger _ (.lengthOf hcode (by simp))
        · next hcode => cases hstep; exact hlonger _ (.literal hname hcode)
      · exact hended hstep
    | lengthOf hcode hfield =>
      dsimp only at hstep
      split at hstep
      · next hc =>
        cases hstep
        rw [List.append_assoc, List.cons_append] at hlonger
        exact hlonger _ (.lengthOf hcode (by simpa [or_imp, forall_and, hc] using hfield))
      · exact hended hstep
    | @literal start code payload hname hcode =>
      dsimp only at hstep
      rw [List.append_assoc, List.cons_append] at hlonger
      split at hstep
      · next hquote =>
        cases hstep
        obtain rfl := eq_of_beq hquote
        exact hlonger _ (.apostrophe hname hcode)
      · next hquote =>
        cases hstep
        rw [← doubled_concat payload (by simpa using hquote)] at hlonger
        exact hlonger _ (.literal hname hcode)
    | @apostrophe start code payload hname hcode =>
      dsimp only at hstep
      split at hstep
      · next hquote =>
        cases hstep
        obtain rfl := eq_of_beq hquote
        have hdoubled : Text.doubled payload ++ ['\'', '\''] = Text.doubled (payload ++ ['\'']) :=
          (Text.doubled_append payload ['\'']).symm
        rw [List.append_assoc, List.cons_append, List.append_assoc, List.cons_append,
          List.nil_append, hdoubled] at hlonger
        exact hlonger _ (.literal hname hcode)
      · exact hended hstep

theorem reached_foldlM (cs : List Char)
    (h : cs.foldlM (Scanner.step registers) Scanner.start = .ok s) : Reached registers s cs := by
  induction cs using List.reverseRecOn generalizing s with
  | nil => cases h; exact .gap rfl (by simp) .nil isGap_nil rfl
  | append_singleton cs c ih =>
    obtain ⟨s₀, hs₀, hstep⟩ := foldlM_concat_eq_ok h
    exact (ih hs₀).step hstep

/-- An operand that divides into tokens is their writing, with a gap at its end. -/
theorem written_of_scan {operand : String} (h : scan registers operand = .ok tokens) :
    ∃ text gap, operand.toList = text ++ gap ∧ IsGap gap ∧ Written registers tokens text := by
  unfold scan at h
  cases hs : operand.toList.foldlM (Scanner.step registers) Scanner.start with
  | error e => rw [hs] at h; cases h
  | ok s =>
    rw [hs] at h
    exact (reached_foldlM _ hs).close h

end Token
end AsmLayout
