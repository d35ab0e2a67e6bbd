import AsmLayout.Proofs.Token.Acceptance

/-!
# Where an operand fails to divide

`Token.Fault` says what an error tells about the operand: which character is at fault, what stands
before it and what cannot mend it. It rests on what the scanner knows of its place
(`Token.Tracks.step`). Main statement: `Token.fault_of_scan` (every error tells the truth).
-/

namespace AsmLayout.Token

open Scanner

variable {registers : String → Option UInt8} {tokens : List Token} {token : Token}
  {text gap spelling read cs : List Char} {c : Char} {s s' : Scanner} {run : Run} {position : Nat}
  {blank : Bool} {e : TokenError}

/-- What an error says about a text that does not divide into tokens. -/
inductive Fault (registers : String → Option UInt8) (text : List Char) : TokenError → Prop
  /-- The tokens before the character end directly before it, with an operand or a closing
  parenthesis. Nothing behind the character matters. -/
  | invalidSeparator {c : Char} {position : Nat} {tokens : List Token}
      (hchar : text[position]? = some c)
      (hscan : scan registers (String.ofList (text.take position)) = .ok tokens)
      (hadjacent : Written registers tokens (text.take position))
      (hafter : ∃ last ∈ tokens.getLast?, last.isOperand = true ∨ last = .rightParen)
      (hsame : ∀ other : String, text.take (position + 1) <+: other.toList →
        scan registers other = .error (.invalidSeparator c position)) :
      Fault registers text (.invalidSeparator c position)
  /-- What stands before the character divides into tokens, and nothing behind it matters. -/
  | unexpectedChar {c : Char} {position : Nat} {tokens : List Token}
      (hchar : text[position]? = some c)
      (hscan : scan registers (String.ofList (text.take position)) = .ok tokens)
      (hsame : ∀ other : String, text.take (position + 1) <+: other.toList →
        scan registers other = .error (.unexpectedChar c position)) :
      Fault registers text (.unexpectedChar c position)
  /-- A name begins at the position and has an apostrophe directly behind it. -/
  | unterminatedLiteral {position : Nat} {tokens : List Token} {name rest : List Char}
      (hscan : scan registers (String.ofList (text.take position)) = .ok tokens)
      (hbegins : ∀ c ∈ (text.take position).getLast?, isNameChar c = false)
      (hname : IsName name) (hrest : text.drop position = name ++ '\'' :: rest) :
      Fault registers text (.unterminatedLiteral position)
  /-- The digits are a longest run of the text, and their value is no word. -/
  | decimalOutOfRange {before digits after : List Char} {tokens : List Token}
      (htext : text = before ++ (digits ++ after)) (hdigits : ∀ c ∈ digits, c.isDigit = true)
      (hbegins : ∀ c ∈ before.getLast?, c.isDigit = false)
      (hends : ∀ c ∈ after.head?, c.isDigit = false)
      (hvalue : 9223372036854775807 < Text.digitsValue 10 digits)
      (hscan : scan registers (String.ofList before) = .ok tokens) :
      Fault registers text (.decimalOutOfRange (String.ofList digits))

/-- The position where the open name or literal begins. -/
def Run.start? : Run → Option Nat
  | .gap _ | .number _ => none
  | .name start _ | .attribute start _ _ | .literal start _ _ | .apostrophe start _ _ => some start

/-- The characters of the open run. -/
def Run.characters : Run → List Char
  | .gap _ => []
  | .number digits => digits
  | .name _ chars => chars
  | .attribute _ code field => code ++ '\'' :: field
  | .literal _ code payload => code ++ '\'' :: Text.doubled payload
  | .apostrophe _ code payload => code ++ '\'' :: (Text.doubled payload ++ ['\''])

/-- The scanner knows how much it has read, where the open run begins and whether the last character
was a blank. -/
structure Tracks (s : Scanner) (read : List Char) : Prop where
  position : s.position = read.length
  start : ∀ start ∈ s.run.start?, start + s.run.characters.length = read.length
  blank : s.run = .gap false → ∀ c ∈ read.getLast?, isSpace c = false

theorem tracks_start : Tracks Scanner.start [] := ⟨rfl, nofun, fun _ => nofun⟩

theorem Tracks.begin (hposition : position = read.length)
    (h : Scanner.begin tokens position blank c = .ok s') : Tracks s' (read ++ [c]) := by
  have hmark : ∀ tokens, isSpace c = false →
      Tracks ⟨tokens, position + 1, .gap false⟩ (read ++ [c]) := by
    intro tokens hc
    exact ⟨by simp [hposition], nofun, fun _ d hd => by simp at hd; rw [← hd, hc]⟩
  cases begins_of_begin h with
  | space hc => exact ⟨by simp [hposition], nofun, nofun⟩
  | leftParen hc => exact hmark _ (by rw [hc]; decide)
  | rightParen hc => exact hmark _ (by rw [hc]; decide)
  | comma hc => exact hmark _ (by rw [hc]; decide)
  | sign hc => exact hmark _ (by rcases hc with rfl | rfl | rfl <;> decide)
  | star hc => exact hmark _ (by rw [hc]; decide)
  | number hc hfree => exact ⟨by simp [hposition], nofun, nofun⟩
  | name hc hfree =>
    refine ⟨by simp [hposition], fun start hstart => ?_, nofun⟩
    cases hstart
    simp [Run.characters, hposition]

/-- A run that goes on is longer by a character and begins where it began. -/
theorem Tracks.goOn {run' : Run} (h : Tracks ⟨tokens, position, run⟩ read)
    (hstart : run'.start? = run.start?)
    (hlength : run'.characters.length = run.characters.length + 1) :
    Tracks ⟨tokens, position + 1, run'⟩ (read ++ [c]) := by
  obtain ⟨hposition, hbegins, -⟩ := h
  dsimp only at hposition hbegins
  refine ⟨by simp [hposition], fun start hmem => ?_, fun hgap => ?_⟩
  · have hread := hbegins start (hstart ▸ hmem)
    simp only [List.length_append, List.length_singleton, hlength]
    omega
  · dsimp only at hgap
    rw [hgap] at hlength
    cases hlength

theorem Tracks.step (h : Tracks s read) (hstep : Scanner.step registers s c = .ok s') :
    Tracks s' (read ++ [c]) := by
  have hended : Token.ended registers s c = .ok s' → Tracks s' (read ++ [c]) := by
    intro hended
    obtain ⟨tokens, -, hbegin⟩ := ended_eq_ok hended
    exact .begin h.position hbegin
  obtain ⟨tokens, position, run⟩ := s
  unfold Scanner.step at hstep
  rcases run with blank | digits | ⟨start, chars⟩ | ⟨start, code, field⟩ | ⟨start, code, payload⟩ |
    ⟨start, code, payload⟩
  · exact .begin h.position hstep
  · dsimp only at hstep
    split at hstep
    · cases hstep; exact h.goOn rfl (by simp [Run.characters])
    · exact hended hstep
  · dsimp only at hstep
    split at hstep
    · cases hstep; exact h.goOn rfl (by simp [Run.characters])
    split at hstep
    · split at hstep
      · cases hstep; exact h.goOn rfl (by simp [Run.characters])
      · cases hstep; exact h.goOn rfl (by simp [Run.characters, Text.doubled])
    · exact hended hstep
  · dsimp only at hstep
    split at hstep
    · cases hstep; exact h.goOn rfl (by simp [Run.characters]; omega)
    · exact hended hstep
  · dsimp only at hstep
    split at hstep
    · cases hstep; exact h.goOn rfl (by simp [Run.characters]; omega)
    · next hquote =>
      cases hstep
      have hdoubled := doubled_concat payload (c := c) (by simpa using hquote)
      exact h.goOn rfl (by simp [Run.characters, hdoubled]; omega)
  · dsimp only at hstep
    split at hstep
    · next hquote =>
      cases hstep
      obtain rfl := eq_of_beq hquote
      have hdoubled : Text.doubled (payload ++ ['\'']) = Text.doubled payload ++ ['\'', '\''] :=
        Text.doubled_append payload ['\'']
      exact h.goOn rfl (by simp [Run.characters, hdoubled]; omega)
    · exact hended hstep

theorem tracks_foldlM (cs : List Char)
    (h : cs.foldlM (Scanner.step registers) Scanner.start = .ok s) : Tracks s cs := by
  induction cs using List.reverseRecOn generalizing s with
  | nil => cases h; exact tracks_start
  | append_singleton cs c ih =>
    obtain ⟨s₀, hs₀, hstep⟩ := foldlM_concat_eq_ok h
    exact (ih hs₀).step hstep

theorem Opens.characters (h : Opens run spelling) : run.characters = spelling := by
  cases h <;> rfl

/-- Tokens that an operand may follow directly end with a character that no name may hold. -/
theorem Written.getLast?_of_afterOperand (h : Written registers tokens text)
    (hafter : afterOperand tokens = false) : ∀ c ∈ text.getLast?, isNameChar c = false := by
  cases h with
  | nil => nofun
  | @concat before token text gap spelling hbefore hgap hneeds hspells =>
    have hlast : ¬ (token.isOperand = true ∨ token = .rightParen) := by
      intro h
      have hend : afterOperand (before ++ [token]) = true :=
        afterOperand_iff.2 ⟨token, List.getLast?_concat, h⟩
      rw [hafter] at hend
      cases hend
    have hsingle : ∀ d, spelling = [d] → isNameChar d = false →
        ∀ c ∈ (text ++ (gap ++ spelling)).getLast?, isNameChar c = false := by
      rintro d rfl hd c hc
      rw [← List.append_assoc, List.getLast?_concat] at hc
      cases hc
      exact hd
    cases hspells with
    | leftParen => exact hsingle _ rfl (by decide)
    | comma => exact hsingle _ rfl (by decide)
    | sign hc => exact hsingle _ rfl (by rcases hc with rfl | rfl | rfl <;> decide)
    | times => exact hsingle _ rfl (by decide)
    | rightParen => exact absurd (.inr rfl) hlast
    | _ => exact absurd (.inl rfl) hlast

theorem IsGap.getLast? (h : IsGap gap) : ∀ c ∈ gap.getLast?, isSpace c = true :=
  fun c hc => h c (List.mem_of_getLast? hc)

/-- A run begins behind a character that no name may hold. -/
theorem getLast?_before_run (hwritten : Written registers tokens text) (hgap : IsGap gap)
    (hfree : afterOperand tokens = true → gap ≠ []) :
    ∀ c ∈ (text ++ gap).getLast?, isNameChar c = false := by
  intro c hc
  by_cases hne : gap = []
  · subst hne
    rw [List.append_nil] at hc
    exact hwritten.getLast?_of_afterOperand (by simpa using hfree) c hc
  · rw [List.getLast?_append_of_ne_nil _ hne] at hc
    by_contra hname
    have hspace := isSpace_of_isNameChar (by simpa using hname)
    rw [hgap.getLast? c hc] at hspace
    cases hspace

/-! ### Steps that fail -/

section FoldlM

variable {ε σ α : Type} {f : σ → α → Except ε σ} {a : α} {l l' : List α} {s s₁ : σ} {err : ε}

/-- A run that fails does so at one item, and runs well up to it. -/
theorem exists_of_foldlM_eq_error (h : l.foldlM f s = .error err) :
    ∃ pre a post s₁, l = pre ++ a :: post ∧ pre.foldlM f s = .ok s₁ ∧ f s₁ a = .error err := by
  induction l generalizing s with
  | nil => cases h
  | cons a l ih =>
    rw [List.foldlM_cons] at h
    cases ha : f s a with
    | error err' => rw [ha] at h; cases h; exact ⟨[], a, l, s, rfl, rfl, ha⟩
    | ok s₂ =>
      rw [ha] at h
      obtain ⟨pre, b, post, s₁, rfl, hpre, hb⟩ := ih h
      exact ⟨a :: pre, b, post, s₁, rfl, foldlM_cons_eq_ok ha hpre, hb⟩

/-- Nothing behind the item where a run fails mends it. -/
theorem foldlM_eq_error (h : l.foldlM f s = .ok s₁) (ha : f s₁ a = .error err) :
    (l ++ a :: l').foldlM f s = .error err := by
  rw [List.foldlM_append, h]
  change (a :: l').foldlM f s₁ = .error err
  rw [List.foldlM_cons, ha]
  rfl

end FoldlM

theorem begin_eq_error (h : Scanner.begin tokens position blank c = .error e) :
    e = .invalidSeparator c position ∧ afterOperand tokens = true ∧ blank = false ∨
      e = .unexpectedChar c position := by
  unfold Scanner.begin at h
  dsimp only at h
  split at h
  · next hsep =>
    cases h
    simp only [Bool.and_eq_true, Bool.not_eq_true'] at hsep
    exact .inl ⟨rfl, hsep.1.2, hsep.2⟩
  · repeat (split at h; · cases h)
    cases h
    exact .inr rfl

theorem ended_eq_error (h : ended registers s c = .error e) :
    s.close registers = .error e ∨
      ∃ tokens, s.close registers = .ok tokens ∧
        Scanner.begin tokens s.position false c = .error e := by
  unfold ended at h
  cases hclose : s.close registers with
  | error e' => rw [hclose] at h; cases h; exact .inl rfl
  | ok tokens => rw [hclose] at h; exact .inr ⟨tokens, rfl, h⟩

/-- A character fails because it begins nothing or because the run that it ends makes no token. -/
theorem step_eq_error (h : Scanner.step registers s c = .error e) :
    (∃ blank, s.run = .gap blank ∧ Scanner.begin s.tokens s.position blank c = .error e) ∨
      (∀ blank, s.run ≠ .gap blank) ∧ (∀ digits, s.run = .number digits → c.isDigit = false) ∧
        ended registers s c = .error e := by
  obtain ⟨tokens, position, run⟩ := s
  unfold Scanner.step at h
  rcases run with blank | digits | ⟨start, chars⟩ | ⟨start, code, field⟩ | ⟨start, code, payload⟩ |
    ⟨start, code, payload⟩
  · exact .inl ⟨blank, rfl, h⟩
  all_goals dsimp only at h
  · split at h
    · cases h
    · next hc => exact .inr ⟨nofun, fun _ _ => by simpa using hc, h⟩
  · split at h
    · cases h
    split at h
    · split at h <;> cases h
    · exact .inr ⟨nofun, nofun, h⟩
  · split at h
    · cases h
    · exact .inr ⟨nofun, nofun, h⟩
  · split at h <;> cases h
  · split at h
    · cases h
    · exact .inr ⟨nofun, nofun, h⟩

/-- The runs that make no token. -/
theorem Opens.close_eq_error (h : Opens run spelling)
    (hclose : Scanner.close registers ⟨tokens, position, run⟩ = .error e) :
    (run = .number spelling ∧ (∀ c ∈ spelling, c.isDigit = true) ∧
      9223372036854775807 < Text.digitsValue 10 spelling ∧
      e = .decimalOutOfRange (String.ofList spelling)) ∨
    ∃ start name rest, run.start? = some start ∧ IsName name ∧ spelling = name ++ '\'' :: rest ∧
      e = .unterminatedLiteral start := by
  unfold Scanner.close at hclose
  cases h with
  | number hne hdigits =>
    dsimp only at hclose
    split at hclose
    · cases hclose
    · next hvalue =>
      cases hclose
      refine .inl ⟨rfl, hdigits, ?_, rfl⟩
      by_contra hle
      simp only [int64?, ite_eq_right_iff, reduceCtorEq, imp_false] at hvalue
      omega
  | name hname => cases hclose
  | @lengthOf start code field hcode hfield =>
    dsimp only at hclose
    split at hclose
    · cases hclose
      rcases isLengthCode_iff.1 hcode with rfl | rfl
      · exact .inr ⟨start, _, field, rfl, (isName_lengthCode (.inl rfl)).1, rfl, rfl⟩
      · exact .inr ⟨start, _, field, rfl, (isName_lengthCode (.inr rfl)).1, rfl, rfl⟩
    · cases hclose
  | @literal start code payload hname hcode =>
    cases hclose
    exact .inr ⟨start, code, _, rfl, hname, rfl, rfl⟩
  | apostrophe hname hcode => cases hclose

theorem scan_ofList (hread : read.foldlM (Scanner.step registers) Scanner.start = .ok s) :
    scan registers (String.ofList read) = s.close registers := by
  unfold scan
  rw [String.toList_ofList, hread]
  rfl

/-- An open run that makes no token is at fault, whatever comes after it. -/
theorem fault_of_close {after : List Char}
    (hread : read.foldlM (Scanner.step registers) Scanner.start = .ok s)
    (hclose : s.close registers = .error e)
    (hends : ∀ digits, s.run = .number digits → ∀ c ∈ after.head?, c.isDigit = false) :
    Fault registers (read ++ after) e := by
  have htracks := tracks_foldlM read hread
  obtain ⟨tokens, position, run⟩ := s
  cases reached_foldlM read hread with
  | gap hrun => cases hrun; cases hclose
  | @run text gap spelling hopens hfree hwritten hgap hspelled =>
    have hbefore : scan registers (String.ofList (text ++ gap)) = .ok tokens :=
      hwritten.scan hgap String.toList_ofList
    have hfirst := getLast?_before_run hwritten hgap hfree
    rw [← List.append_assoc] at hspelled
    subst hspelled
    rcases hopens.close_eq_error hclose with
      ⟨rfl, hdigits, hvalue, rfl⟩ | ⟨start, name, rest, hstart, hname, rfl, rfl⟩
    · refine .decimalOutOfRange (List.append_assoc ..) hdigits (fun c hc => ?_) (hends _ rfl) hvalue
        hbefore
      by_contra hdigit
      have hnameChar := isNameChar_of_isDigit (by simpa using hdigit)
      rw [hfirst c hc] at hnameChar
      cases hnameChar
    · have hlength : start + (name ++ '\'' :: rest).length =
          (text ++ gap).length + (name ++ '\'' :: rest).length := by
        rw [← List.length_append, ← htracks.start start hstart, hopens.characters]
      obtain rfl := Nat.add_right_cancel hlength
      have htake : (text ++ gap ++ (name ++ '\'' :: rest) ++ after).take (text ++ gap).length =
          text ++ gap := by
        rw [List.append_assoc, List.take_left]
      have hdrop : (text ++ gap ++ (name ++ '\'' :: rest) ++ after).drop (text ++ gap).length =
          name ++ '\'' :: (rest ++ after) := by
        rw [List.append_assoc, List.drop_left]
        simp
      exact .unterminatedLiteral (by rw [htake]; exact hbefore) (by rw [htake]; exact hfirst) hname
        hdrop

/-- A character that begins nothing is at fault, whatever comes after it. -/
theorem fault_of_begin {after : List Char}
    (hread : read.foldlM (Scanner.step registers) Scanner.start = .ok s)
    (hclose : s.close registers = .ok tokens)
    (hadjacent : blank = false → Written registers tokens read)
    (hbegin : Scanner.begin tokens s.position blank c = .error e)
    (hstep : Scanner.step registers s c = .error e) :
    Fault registers (read ++ c :: after) e := by
  have hposition := (tracks_foldlM read hread).position
  have hsame : ∀ other : String, (read ++ c :: after).take (s.position + 1) <+: other.toList →
      scan registers other = .error e := by
    rintro other ⟨rest, hother⟩
    rw [hposition, List.take_length_add_append, List.take_succ_cons, List.take_zero,
      List.append_assoc, List.singleton_append] at hother
    unfold scan
    rw [← hother, foldlM_eq_error hread hstep]
    rfl
  have hchar : (read ++ c :: after)[s.position]? = some c := by
    rw [hposition, List.getElem?_append_right (Nat.le_refl _), Nat.sub_self]
    rfl
  have htake : (read ++ c :: after).take s.position = read := by rw [hposition, List.take_left]
  have hscan : scan registers (String.ofList ((read ++ c :: after).take s.position)) =
      .ok tokens := by
    rw [htake, scan_ofList hread, hclose]
  rcases begin_eq_error hbegin with ⟨rfl, hafter, hblank⟩ | rfl
  · exact .invalidSeparator hchar hscan (by rw [htake]; exact hadjacent hblank)
      (afterOperand_iff.1 hafter) hsame
  · exact .unexpectedChar hchar hscan hsame

/-- Directly behind a token that is no run, nothing but its writing has been read. -/
theorem written_of_gap (hread : read.foldlM (Scanner.step registers) Scanner.start = .ok s)
    (hrun : s.run = .gap false) : Written registers s.tokens read := by
  have hlast := (tracks_foldlM read hread).blank hrun
  cases reached_foldlM read hread with
  | @gap blank text gap hrun' hblank hwritten hgap hspelled =>
    have hnil : gap = [] := by
      by_contra hne
      rw [hspelled, List.getLast?_append_of_ne_nil _ hne] at hlast
      have hmem := List.getLast?_eq_some_getLast hne
      have hspace := hgap.getLast? _ hmem
      rw [hlast _ hmem] at hspace
      cases hspace
    rw [hspelled, hnil, List.append_nil]
    exact hwritten
  | run hopens => rw [hrun] at hopens; cases hopens

theorem written_of_run (hread : read.foldlM (Scanner.step registers) Scanner.start = .ok s)
    (hopen : ∀ blank, s.run ≠ .gap blank) (hclose : s.close registers = .ok tokens) :
    Written registers tokens read := by
  cases reached_foldlM read hread with
  | gap hrun => exact absurd hrun (hopen _)
  | run hopens hfree hwritten hgap hspelled =>
    obtain ⟨token, rfl, -, hspells⟩ := hopens.close hclose
    rw [hspelled]
    exact .concat hwritten hgap (fun hneeds => hfree (afterOperand_iff.2 hneeds.2)) hspells

/-- What an error says about the operand that does not divide into tokens is true. -/
theorem fault_of_scan {operand : String} (h : scan registers operand = .error e) :
    Fault registers operand.toList e := by
  unfold scan at h
  cases hall : operand.toList.foldlM (Scanner.step registers) Scanner.start with
  | ok s =>
    rw [hall] at h
    rw [← List.append_nil operand.toList]
    exact fault_of_close hall h (fun _ _ => nofun)
  | error e' =>
    rw [hall] at h
    cases h
    obtain ⟨read, c, after, s, hoperand, hread, hstep⟩ := exists_of_foldlM_eq_error hall
    rw [hoperand]
    rcases step_eq_error hstep with ⟨blank, hrun, hbegin⟩ | ⟨hopen, hends, hended⟩
    · have hclose : s.close registers = .ok s.tokens := by simp only [Scanner.close, hrun]
      refine fault_of_begin hread hclose ?_ hbegin hstep
      rintro rfl
      exact written_of_gap hread hrun
    · rcases ended_eq_error hended with hclose | ⟨tokens, hclose, hbegin⟩
      · refine fault_of_close hread hclose fun digits hrun d hd => ?_
        cases hd
        exact hends digits hrun
      · exact fault_of_begin hread hclose (fun _ => written_of_run hread hopen hclose) hbegin hstep

/-- One operand for each error. The fault may stand behind a whole literal, behind blanks or at the
end of the operand. -/
theorem fault_of_scan_each :
    (scan (fun _ => none) "A+C'B''('D" = .error (.invalidSeparator 'D' 9) ∧
      Fault (fun _ => none) "A+C'B''('D".toList (.invalidSeparator 'D' 9)) ∧
    (scan (fun _ => none) "(L'A \t%B" = .error (.unexpectedChar '%' 6) ∧
      Fault (fun _ => none) "(L'A \t%B".toList (.unexpectedChar '%' 6)) ∧
    (scan (fun _ => none) "12 -X'1F''" = .error (.unterminatedLiteral 4) ∧
      Fault (fun _ => none) "12 -X'1F''".toList (.unterminatedLiteral 4)) ∧
    (scan (fun _ => none) "A*9223372036854775808)" =
        .error (.decimalOutOfRange "9223372036854775808") ∧
      Fault (fun _ => none) "A*9223372036854775808)".toList
        (.decimalOutOfRange "9223372036854775808")) :=
  ⟨⟨by decide +kernel, fault_of_scan (by decide +kernel)⟩,
    ⟨by decide +kernel, fault_of_scan (by decide +kernel)⟩,
    ⟨by decide +kernel, fault_of_scan (by decide +kernel)⟩,
    ⟨by decide +kernel, fault_of_scan (by decide +kernel)⟩⟩

end AsmLayout.Token
