import AsmLayout.Proofs.Token.Grammar

/-!
# The scanner accepts its grammar

Every writing of tokens is read back: after the spelling of a token the scanner is ready for
whatever may follow it (`Token.Ready.read_spelling`). Main statement: `Token.scan_eq_ok_iff` (an operand
divides into tokens exactly if it is a writing of them).
-/

namespace AsmLayout

section FoldlM

variable {ε σ α : Type} {f : σ → α → Except ε σ} {a : α} {l l' : List α} {s s₁ s₂ : σ}

theorem foldlM_cons_eq_ok (h : f s a = .ok s₁) (h' : l.foldlM f s₁ = .ok s₂) :
    (a :: l).foldlM f s = .ok s₂ := by
  rw [List.foldlM_cons, h]
  exact h'

theorem foldlM_append_eq_ok (h : l.foldlM f s = .ok s₁) (h' : l'.foldlM f s₁ = .ok s₂) :
    (l ++ l').foldlM f s = .ok s₂ := by
  rw [List.foldlM_append, h]
  exact h'

end FoldlM

namespace Token

open Scanner

variable {registers : String → Option UInt8} {tokens : List Token} {token : Token}
  {text gap spelling chars cs : List Char} {c : Char} {s : Scanner} {run : Run} {position : Nat}
  {blank : Bool}

theorem isSpace_of_isNameChar (h : isNameChar c = true) : isSpace c = false := by
  by_contra hspace
  have hblank := isBlank_of_isSpace (by simpa using hspace)
  rw [isBlank_of_isNameChar h] at hblank
  cases hblank

theorem begin_of_isNameChar (h : isNameChar c = true)
    (hfree : afterOperand tokens = true → blank = true) :
    Scanner.begin tokens position blank c =
      if c.isDigit then .ok ⟨tokens, position + 1, .number [c]⟩
      else if isNameStart c then .ok ⟨tokens, position + 1, .name position [c]⟩
      else .error (.unexpectedChar c position) := by
  have hne : ∀ d, isNameChar d = false → (c == d) = false := fun d hd =>
    beq_false_of_ne (ne_of_isNameChar h hd)
  have hsep : ((isNameChar c || c == '\'') && afterOperand tokens && !blank) = false := by
    cases hafter : afterOperand tokens with
    | false => simp
    | true => simp [hfree hafter]
  unfold Scanner.begin
  simp [hsep, isSpace_of_isNameChar h, hne '(' (by decide), hne ')' (by decide),
    hne ',' (by decide), hne '+' (by decide), hne '-' (by decide), hne '/' (by decide),
    hne '*' (by decide)]

theorem begin_of_isSpace (h : isSpace c = true) :
    Scanner.begin tokens position blank c = .ok ⟨tokens, position + 1, .gap true⟩ := by
  have hcases : c = ' ' ∨ c = '\t' := by simpa [isSpace] using h
  rcases hcases with rfl | rfl <;> simp [Scanner.begin, isNameChar, isSpace]

theorem foldlM_run {run : List Char → Run}
    (h : ∀ position acc, ∀ c ∈ cs, Scanner.step registers ⟨tokens, position, run acc⟩ c =
      .ok ⟨tokens, position + 1, run (acc ++ [c])⟩) (position : Nat) (acc : List Char) :
    ∃ position', cs.foldlM (Scanner.step registers) ⟨tokens, position, run acc⟩ =
      .ok ⟨tokens, position', run (acc ++ cs)⟩ := by
  induction cs generalizing position acc with
  | nil => exact ⟨position, by simp [pure, Except.pure]⟩
  | cons c cs ih =>
    obtain ⟨position', hrest⟩ :=
      ih (fun p a d hd => h p a d (List.mem_cons_of_mem c hd)) (position + 1) (acc ++ [c])
    rw [List.append_assoc, List.singleton_append] at hrest
    exact ⟨position', foldlM_cons_eq_ok (h position acc c List.mem_cons_self) hrest⟩

theorem foldlM_payload (start : Nat) (code payload : List Char) (position : Nat)
    (acc : List Char) :
    ∃ position', (Text.doubled payload).foldlM (Scanner.step registers)
        ⟨tokens, position, .literal start code acc⟩ =
      .ok ⟨tokens, position', .literal start code (acc ++ payload)⟩ := by
  induction payload generalizing position acc with
  | nil => exact ⟨position, by simp [Text.doubled, pure, Except.pure]⟩
  | cons c payload ih =>
    by_cases hc : c = '\''
    · subst hc
      obtain ⟨position', hrest⟩ := ih (position + 1 + 1) (acc ++ ['\''])
      rw [List.append_assoc, List.singleton_append] at hrest
      -- the first apostrophe of a pair seems to close the literal
      rw [Text.doubled, if_pos rfl]
      exact ⟨position', hrest⟩
    · obtain ⟨position', hrest⟩ := ih (position + 1) (acc ++ [c])
      rw [List.append_assoc, List.singleton_append] at hrest
      have hone : Scanner.step registers ⟨tokens, position, .literal start code acc⟩ c =
          .ok ⟨tokens, position + 1, .literal start code (acc ++ [c])⟩ := by
        simp [Scanner.step, hc]
      rw [Text.doubled, if_neg hc]
      exact ⟨position', foldlM_cons_eq_ok hone hrest⟩

/-- The tokens are complete up to the end of the open run, and a character that may follow them
ends it. -/
structure Ready (registers : String → Option UInt8) (s : Scanner) (tokens : List Token)
    (blank : Bool) : Prop where
  close : s.close registers = .ok tokens
  step : ∀ c, (isNameChar c = true ∨ c = '\'' → afterOperand tokens = true → blank = true) →
    s.step registers c = Scanner.begin tokens s.position blank c

theorem ready_gap : Ready registers ⟨tokens, position, .gap blank⟩ tokens blank :=
  ⟨rfl, fun _ _ => rfl⟩

theorem step_of_close
    (hclose : Scanner.close registers ⟨tokens, position, run⟩ = .ok (tokens ++ [token]))
    (hc : isNameChar c = false) (hquote : c ≠ '\'') :
    Scanner.step registers ⟨tokens, position, run⟩ c =
      Scanner.begin (tokens ++ [token]) position false c := by
  have hended : (do Scanner.begin (← Scanner.close registers ⟨tokens, position, run⟩) position false c)
      = Scanner.begin (tokens ++ [token]) position false c := by rw [hclose]; rfl
  have hdigit : c.isDigit = false := by
    by_contra h
    rw [isNameChar_of_isDigit (by simpa using h)] at hc
    cases hc
  unfold Scanner.step
  -- every run but a gap and an open literal makes a token and ends here
  rcases run with blank | digits | ⟨start, chars⟩ | ⟨start, code, field⟩ | ⟨start, code, payload⟩ |
    ⟨start, code, payload⟩
  · simp [Scanner.close] at hclose
  · simp only [hdigit]; exact hended
  · simp only [hc, beq_false_of_ne hquote]; exact hended
  · simp only [hc]; exact hended
  · cases hclose
  · simp only [beq_false_of_ne hquote]; exact hended

theorem ready_of_close
    (hclose : Scanner.close registers ⟨tokens, position, run⟩ = .ok (tokens ++ [token]))
    (hoperand : token.isOperand = true) :
    Ready registers ⟨tokens, position, run⟩ (tokens ++ [token]) false := by
  refine ⟨hclose, fun c hc => ?_⟩
  have hafter : afterOperand (tokens ++ [token]) = true :=
    afterOperand_iff.2 ⟨token, List.getLast?_concat, .inl hoperand⟩
  have hother : ¬ (isNameChar c = true ∨ c = '\'') := fun h => by cases hc h hafter
  rw [not_or] at hother
  exact step_of_close hclose (by simpa using hother.1) hother.2

namespace Ready

theorem read_gap (h : Ready registers s tokens false) (hgap : IsGap gap) :
    ∃ s' blank, gap.foldlM (Scanner.step registers) s = .ok s' ∧ Ready registers s' tokens blank ∧
      (gap ≠ [] → blank = true) := by
  cases gap with
  | nil => exact ⟨s, false, rfl, h, by simp⟩
  | cons c cs =>
    have hc := hgap c List.mem_cons_self
    have hstep : s.step registers c = .ok ⟨tokens, s.position + 1, .gap true⟩ := by
      rw [h.step c, begin_of_isSpace hc]
      rintro (hname | rfl)
      · rw [isSpace_of_isNameChar hname] at hc; cases hc
      · cases hc
    have hgo : ∀ position (acc : List Char), ∀ d ∈ cs,
        Scanner.step registers ⟨tokens, position, .gap true⟩ d =
          .ok ⟨tokens, position + 1, .gap true⟩ :=
      fun position acc d hd => begin_of_isSpace (hgap d (List.mem_cons_of_mem c hd))
    obtain ⟨position, hrest⟩ := foldlM_run hgo (s.position + 1) []
    exact ⟨_, true, foldlM_cons_eq_ok hstep hrest, ready_gap, fun _ => rfl⟩

theorem read_name (h : Ready registers s tokens blank)
    (hfree : afterOperand tokens = true → blank = true) (hname : IsName chars) :
    ∃ position, chars.foldlM (Scanner.step registers) s =
      .ok ⟨tokens, position, .name s.position chars⟩ := by
  obtain ⟨⟨c, cs, rfl, hstart⟩, hall⟩ := hname
  have hstep : s.step registers c = .ok ⟨tokens, s.position + 1, .name s.position [c]⟩ := by
    rw [h.step c fun _ => hfree, begin_of_isNameChar (hall c List.mem_cons_self) hfree,
      if_neg (by simp [isDigit_of_isNameStart hstart]), if_pos hstart]
  have hgo : ∀ position acc, ∀ d ∈ cs,
      Scanner.step registers ⟨tokens, position, .name s.position acc⟩ d =
        .ok ⟨tokens, position + 1, .name s.position (acc ++ [d])⟩ := by
    intro position acc d hd
    simp [Scanner.step, hall d (List.mem_cons_of_mem c hd)]
  obtain ⟨position, hrest⟩ := foldlM_run hgo (s.position + 1) [c]
  exact ⟨position, foldlM_cons_eq_ok hstep hrest⟩

theorem read_digits (h : Ready registers s tokens blank)
    (hfree : afterOperand tokens = true → blank = true) (hne : cs ≠ [])
    (hdigits : ∀ c ∈ cs, c.isDigit = true) :
    ∃ position, cs.foldlM (Scanner.step registers) s = .ok ⟨tokens, position, .number cs⟩ := by
  obtain ⟨c, cs, rfl⟩ := List.exists_cons_of_ne_nil hne
  have hc := hdigits c List.mem_cons_self
  have hstep : s.step registers c = .ok ⟨tokens, s.position + 1, .number [c]⟩ := by
    rw [h.step c fun _ => hfree, begin_of_isNameChar (isNameChar_of_isDigit hc) hfree, if_pos hc]
  have hgo : ∀ position acc, ∀ d ∈ cs,
      Scanner.step registers ⟨tokens, position, .number acc⟩ d =
        .ok ⟨tokens, position + 1, .number (acc ++ [d])⟩ := by
    intro position acc d hd
    simp [Scanner.step, hdigits d (List.mem_cons_of_mem c hd)]
  obtain ⟨position, hrest⟩ := foldlM_run hgo (s.position + 1) [c]
  exact ⟨position, foldlM_cons_eq_ok hstep hrest⟩

/-- A token of one character that opens no run. -/
theorem read_mark (h : Ready registers s tokens blank) (hc : isNameChar c = false) (hquote : c ≠ '\'')
    (hbegin : Scanner.begin tokens s.position blank c =
      .ok ⟨tokens ++ [token], s.position + 1, .gap false⟩) :
    ∃ s', [c].foldlM (Scanner.step registers) s = .ok s' ∧
      Ready registers s' (tokens ++ [token]) false := by
  refine ⟨⟨tokens ++ [token], s.position + 1, .gap false⟩, ?_, ready_gap⟩
  have hstep := h.step c (by simp [hc, hquote])
  exact foldlM_cons_eq_ok (hstep.trans hbegin) rfl

/-- After the spelling of a token that may stand here the scanner is ready for the next. -/
theorem read_spelling (h : Ready registers s tokens blank) (hneeds : NeedsGap tokens token → blank = true)
    (hspells : Spells registers tokens token spelling) :
    ∃ s', spelling.foldlM (Scanner.step registers) s = .ok s' ∧
      Ready registers s' (tokens ++ [token]) false := by
  have hfree : token.isRun = true → afterOperand tokens = true → blank = true :=
    fun hrun hafter => hneeds ⟨hrun, afterOperand_iff.1 hafter⟩
  cases hspells with
  | @decimal _ value hne hdigits hvalue =>
    obtain ⟨position, hread⟩ := h.read_digits (hfree rfl) hne hdigits
    refine ⟨_, hread, ready_of_close ?_ rfl⟩
    simp only [Scanner.close, int64?_eq_some_iff.2 hvalue]
  | register hname hfind =>
    obtain ⟨position, hread⟩ := h.read_name (hfree rfl) hname
    refine ⟨_, hread, ready_of_close ?_ rfl⟩
    simp only [Scanner.close, named, hfind]
  | symbol hname hfind =>
    obtain ⟨position, hread⟩ := h.read_name (hfree rfl) hname
    refine ⟨_, hread, ready_of_close ?_ rfl⟩
    simp only [Scanner.close, named, hfind]
  | @lengthOf c field hc hne hfield =>
    obtain ⟨hname, hcode⟩ := isName_lengthCode hc
    obtain ⟨position, hread⟩ := h.read_name (hfree rfl) hname
    have hquote : Scanner.step registers ⟨tokens, position, .name s.position [c]⟩ '\'' =
        .ok ⟨tokens, position + 1, .attribute s.position [c] []⟩ := by
      have hquote : isNameChar '\'' = false := by decide
      simp only [Scanner.step, hquote, hcode, beq_self_eq_true, if_true, Bool.false_eq_true, if_false]
    have hgo : ∀ position acc, ∀ d ∈ field,
        Scanner.step registers ⟨tokens, position, .attribute s.position [c] acc⟩ d =
          .ok ⟨tokens, position + 1, .attribute s.position [c] (acc ++ [d])⟩ := by
      intro position acc d hd
      simp [Scanner.step, hfield d hd]
    obtain ⟨position', hrest⟩ := foldlM_run hgo (position + 1) []
    refine ⟨_, foldlM_append_eq_ok hread (foldlM_cons_eq_ok hquote hrest), ready_of_close ?_ rfl⟩
    have hupper : String.ofList ([c].map Char.toUpper) = "L" := by
      rcases hc with rfl | rfl <;> decide
    have hsome : field.isEmpty = false := by simpa using hne
    simp only [Scanner.close, quoted, List.nil_append, hsome, hupper, Bool.false_eq_true, if_false]
  | @literal code payload hname hcode =>
    have hlength : ¬ isLengthCode (String.ofList code) = true :=
      fun h => not_or.2 hcode (isLengthCode_iff.1 h)
    obtain ⟨position, hread⟩ := h.read_name (hfree rfl) hname
    have hquote : Scanner.step registers ⟨tokens, position, .name s.position code⟩ '\'' =
        .ok ⟨tokens, position + 1, .literal s.position code []⟩ := by
      have hquote : isNameChar '\'' = false := by decide
      simp only [Scanner.step, hquote, hlength, beq_self_eq_true, if_true, Bool.false_eq_true,
        if_false]
    obtain ⟨position', hrest⟩ := @foldlM_payload registers tokens s.position code payload
      (position + 1) []
    have hclosed : ['\''].foldlM (Scanner.step registers)
        ⟨tokens, position', .literal s.position code payload⟩ =
          .ok ⟨tokens, position' + 1, .apostrophe s.position code payload⟩ := rfl
    have hend := foldlM_append_eq_ok hrest hclosed
    exact ⟨_, foldlM_append_eq_ok hread (foldlM_cons_eq_ok hquote hend), ready_of_close rfl rfl⟩
  | leftParen => exact h.read_mark (by decide) (by decide) rfl
  | rightParen => exact h.read_mark (by decide) (by decide) rfl
  | comma => exact h.read_mark (by decide) (by decide) rfl
  | sign hc =>
    rcases hc with rfl | rfl | rfl <;> exact h.read_mark (by decide) (by decide) rfl
  | counter hfits =>
    have hbegin := star_of_counterFits hfits
    exact h.read_mark (by decide) (by decide) (by rw [← hbegin]; rfl)
  | times hfits =>
    have hbegin := star_of_not_counterFits hfits
    exact h.read_mark (by decide) (by decide) (by rw [← hbegin]; rfl)

end Ready

theorem Written.foldlM (h : Written registers tokens text) :
    ∃ s, text.foldlM (Scanner.step registers) Scanner.start = .ok s ∧
      Ready registers s tokens false := by
  induction h with
  | nil => exact ⟨Scanner.start, rfl, ready_gap⟩
  | @concat before token text gap spelling _ hgap hneeds hspells ih =>
    obtain ⟨s₁, hs₁, hready₁⟩ := ih
    obtain ⟨s₂, blank, hs₂, hready₂, hblank⟩ := hready₁.read_gap hgap
    obtain ⟨s₃, hs₃, hready₃⟩ := hready₂.read_spelling (fun h => hblank (hneeds h)) hspells
    exact ⟨s₃, foldlM_append_eq_ok hs₁ (foldlM_append_eq_ok hs₂ hs₃), hready₃⟩

/-- The writing of tokens, with a gap at its end, divides into these tokens. -/
theorem Written.scan {operand : String} (h : Written registers tokens text) (hgap : IsGap gap)
    (hoperand : operand.toList = text ++ gap) : scan registers operand = .ok tokens := by
  obtain ⟨s, hs, hready⟩ := h.foldlM
  obtain ⟨s', blank, hs', hready', -⟩ := hready.read_gap hgap
  have hall : operand.toList.foldlM (Scanner.step registers) Scanner.start = .ok s' := by
    rw [hoperand]
    exact foldlM_append_eq_ok hs hs'
  unfold Token.scan
  rw [hall]
  exact hready'.close

/-- An operand divides into tokens exactly if it is a writing of these tokens. -/
theorem scan_eq_ok_iff {operand : String} :
    scan registers operand = .ok tokens ↔
      ∃ text gap, operand.toList = text ++ gap ∧ IsGap gap ∧ Written registers tokens text :=
  ⟨written_of_scan, fun ⟨_, _, hoperand, hgap, hwritten⟩ => hwritten.scan hgap hoperand⟩

end Token
end AsmLayout
