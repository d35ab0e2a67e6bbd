import AsmLayout.Proofs.Token.Printing

/-!
# Where the tokens of an operand stand

`Token.Placed` is the writing of tokens with the offset of each of them. What stands behind an
opening parenthesis is a writing of its own (`Placed.behind_leftParen`). Main statement:
`Token.Places.mem_iff` (the parentheses among the tokens are those outside quoted payloads).
-/

namespace AsmLayout.Token

variable {registers : String → Option UInt8} {tokens before after : List Token}
  {token paren : Token} {placed front behind : List (Token × Nat)}
  {text gap spelling : List Char} {c : Char} {i k offset : Nat}

/-- The text is the tokens, each spelled after a gap and at the offset given with it. -/
inductive Placed (registers : String → Option UInt8) : List (Token × Nat) → List Char → Prop
  | nil : Placed registers [] []
  | concat {front : List (Token × Nat)} {token : Token} {text gap spelling : List Char}
      (hfront : Placed registers front text) (hgap : IsGap gap)
      (hneeds : NeedsGap (front.map Prod.fst) token → gap ≠ [])
      (hspells : Spells registers (front.map Prod.fst) token spelling) :
      Placed registers (front ++ [(token, text.length + gap.length)]) (text ++ (gap ++ spelling))

/-- The operand is the tokens at these offsets, with a gap at its end. -/
def Places (registers : String → Option UInt8) (operand : String) (placed : List (Token × Nat)) :
    Prop :=
  ∃ text gap, operand.toList = text ++ gap ∧ IsGap gap ∧ Placed registers placed text

theorem Placed.written (h : Placed registers placed text) :
    Written registers (placed.map Prod.fst) text := by
  induction h with
  | nil => exact .nil
  | concat _ hgap hneeds hspells ih =>
    rw [List.map_append]
    exact .concat ih hgap hneeds hspells

theorem Written.exists_placed (h : Written registers tokens text) :
    ∃ placed, placed.map Prod.fst = tokens ∧ Placed registers placed text := by
  induction h with
  | nil => exact ⟨[], rfl, .nil⟩
  | concat _ hgap hneeds hspells ih =>
    obtain ⟨front, rfl, hfront⟩ := ih
    exact ⟨_, by simp, .concat hfront hgap hneeds hspells⟩

theorem Places.scan {operand : String} (h : Places registers operand placed) :
    scan registers operand = .ok (placed.map Prod.fst) := by
  obtain ⟨text, gap, hoperand, hgap, hplaced⟩ := h
  exact hplaced.written.scan hgap hoperand

theorem exists_places {operand : String} (h : Token.scan registers operand = .ok tokens) :
    ∃ placed, placed.map Prod.fst = tokens ∧ Places registers operand placed := by
  obtain ⟨text, gap, hoperand, hgap, hwritten⟩ := written_of_scan h
  obtain ⟨placed, htokens, hplaced⟩ := hwritten.exists_placed
  exact ⟨placed, htokens, text, gap, hoperand, hgap, hplaced⟩

namespace Placed

theorem of_concat {entry : Token × Nat} (h : Placed registers (front ++ [entry]) text) :
    ∃ text' gap spelling, text = text' ++ (gap ++ spelling) ∧ Placed registers front text' ∧
      IsGap gap ∧ (NeedsGap (front.map Prod.fst) entry.1 → gap ≠ []) ∧
      Spells registers (front.map Prod.fst) entry.1 spelling ∧
      entry.2 = text'.length + gap.length := by
  generalize hall : front ++ [entry] = all at h
  cases h with
  | nil => simp at hall
  | concat hfront hgap hneeds hspells =>
    obtain ⟨rfl, hentry⟩ := List.append_inj' hall rfl
    obtain rfl := List.singleton_inj.1 hentry
    exact ⟨_, _, _, rfl, hfront, hgap, hneeds, hspells, rfl⟩

/-- The text up to a token is a writing of the tokens before it. -/
theorem split (h : Placed registers (front ++ (token, offset) :: behind) text) :
    ∃ text' gap spelling rest, text = text' ++ (gap ++ (spelling ++ rest)) ∧
      Placed registers front text' ∧ IsGap gap ∧
      Spells registers (front.map Prod.fst) token spelling ∧
      offset = text'.length + gap.length := by
  induction behind using List.reverseRecOn generalizing text with
  | nil =>
    obtain ⟨text', gap, spelling, rfl, hfront, hgap, -, hspells, hoffset⟩ := h.of_concat
    exact ⟨text', gap, spelling, [], by simp, hfront, hgap, hspells, hoffset⟩
  | append_singleton behind entry ih =>
    rw [← List.cons_append, ← List.append_assoc] at h
    obtain ⟨text₁, gap₁, spelling₁, rfl, hbefore, -⟩ := h.of_concat
    obtain ⟨text', gap, spelling, rest, rfl, hfront, hgap, hspells, hoffset⟩ := ih hbefore
    exact ⟨text', gap, spelling, rest ++ (gap₁ ++ spelling₁), by simp, hfront, hgap, hspells,
      hoffset⟩

end Placed

theorem getLast?_behind_leftParen :
    (before ++ .leftParen :: after).getLast? = some (after.getLast?.getD .leftParen) := by
  simp [List.getLast?_append, List.getLast?_cons]

theorem counterFits_behind_leftParen :
    CounterFits (before ++ .leftParen :: after) ↔ CounterFits after := by
  unfold CounterFits
  rw [getLast?_behind_leftParen]
  cases after.getLast? <;> simp

theorem needsGap_behind_leftParen :
    NeedsGap (before ++ .leftParen :: after) token ↔ NeedsGap after token := by
  unfold NeedsGap
  rw [getLast?_behind_leftParen]
  cases after.getLast? <;> simp [isOperand]

theorem Spells.behind_leftParen
    (h : Spells registers (before ++ .leftParen :: after) token spelling) :
    Spells registers after token spelling := by
  cases h with
  | decimal hne hdigits hvalue => exact .decimal hne hdigits hvalue
  | register hname hfind => exact .register hname hfind
  | symbol hname hfind => exact .symbol hname hfind
  | lengthOf hc hne hfield => exact .lengthOf hc hne hfield
  | literal hname hcode => exact .literal hname hcode
  | leftParen => exact .leftParen
  | rightParen => exact .rightParen
  | comma => exact .comma
  | sign hc => exact .sign hc
  | counter hfits => exact .counter (counterFits_behind_leftParen.1 hfits)
  | times hfits => exact .times (mt counterFits_behind_leftParen.2 hfits)

/-- An operand begins anew behind an opening parenthesis. -/
theorem Placed.behind_leftParen
    (h : Placed registers (front ++ (.leftParen, offset) :: behind) text) :
    ∃ text' rest inner, text = text' ++ '(' :: rest ∧ text'.length = offset ∧
      Placed registers inner rest ∧
      behind = inner.map fun entry => (entry.1, offset + 1 + entry.2) := by
  induction behind using List.reverseRecOn generalizing text with
  | nil =>
    obtain ⟨text', gap, spelling, rfl, -, -, -, hspells, hoffset⟩ := h.of_concat
    cases hspells
    exact ⟨text' ++ gap, [], [], by simp, by simpa using hoffset.symm, .nil, rfl⟩
  | append_singleton behind entry ih =>
    rw [← List.cons_append, ← List.append_assoc] at h
    obtain ⟨text₁, gap, spelling, rfl, hbefore, hgap, hneeds, hspells, hoffset⟩ := h.of_concat
    obtain ⟨text', rest, inner, rfl, hlength, hinner, rfl⟩ := ih hbefore
    have htokens : (front ++ (Token.leftParen, offset) ::
        inner.map fun entry => (entry.1, offset + 1 + entry.2)).map Prod.fst =
          front.map Prod.fst ++ .leftParen :: inner.map Prod.fst := by
      simp [Function.comp_def]
    rw [htokens] at hneeds hspells
    have hneeds' : NeedsGap (inner.map Prod.fst) entry.1 → gap ≠ [] := fun h =>
      hneeds (needsGap_behind_leftParen.2 h)
    refine ⟨text', rest ++ (gap ++ spelling), inner ++ [(entry.1, rest.length + gap.length)],
      by simp, hlength, .concat hinner hgap hneeds' hspells.behind_leftParen, ?_⟩
    have hentry : entry = (entry.1, offset + 1 + (rest.length + gap.length)) := by
      refine Prod.ext rfl ?_
      simp only [hoffset, List.length_append, List.length_cons, hlength]
      omega
    rw [List.map_append, List.map_singleton, ← hentry]

/-! ### Parentheses and payloads -/

/-- The character with this number in the spelling of the token lies in a payload between
apostrophes. That of a length attribute stands between none. -/
def Quotes : Token → Nat → Prop
  | literal code payload, i => ¬ isLengthCode code = true ∧ code.length < i ∧
      i + 1 < (literal code payload).text.length
  | _, _ => False

/-- The offset lies in a payload between apostrophes. -/
def InPayload (placed : List (Token × Nat)) (k : Nat) : Prop :=
  ∃ token offset i, (token, offset) ∈ placed ∧ k = offset + i ∧ token.Quotes i

/-- A parenthesis and the character that it is written with. -/
def IsParen (paren : Token) (c : Char) : Prop :=
  paren = .leftParen ∧ c = '(' ∨ paren = .rightParen ∧ c = ')'

theorem IsParen.not_isNameChar (h : IsParen paren c) : isNameChar c = false := by
  rcases h with ⟨-, rfl⟩ | ⟨-, rfl⟩ <;> decide

theorem IsParen.not_isSpace (h : IsParen paren c) : isSpace c = false := by
  rcases h with ⟨-, rfl⟩ | ⟨-, rfl⟩ <;> decide

theorem IsParen.ne_apostrophe (h : IsParen paren c) : c ≠ '\'' := by
  rcases h with ⟨-, rfl⟩ | ⟨-, rfl⟩ <;> decide

theorem length_text_quoted {code : List Char}
    (hcode : ¬ isLengthCode (String.ofList code) = true) (payload : List Char) :
    (Scanner.quoted code payload).text.length =
      code.length + (Text.doubled payload).length + 2 := by
  rw [← String.length_toList, text_quoted hcode]
  simp
  omega

/-- A parenthesis in the spelling of a literal is in its payload. -/
theorem quotes_of_getElem? {code payload : List Char} (hname : IsName code)
    (hcode : ¬ isLengthCode (String.ofList code) = true) (hparen : IsParen paren c)
    (hc : (code ++ '\'' :: (Text.doubled payload ++ ['\'']))[i]? = some c) :
    (Scanner.quoted code payload).Quotes i := by
  have hlength := length_text_quoted hcode payload
  have hcode' : ¬ isLengthCode (String.ofList (code.map Char.toUpper)) = true := by
    rwa [isLengthCode_toUpper]
  refine ⟨hcode', ?_, ?_⟩
  · rw [String.length_ofList, List.length_map]
    by_contra hle
    rcases Nat.lt_or_eq_of_le (Nat.not_lt.1 hle) with hlt | rfl
    · rw [List.getElem?_append_left hlt] at hc
      have hmem := hname.chars c (List.mem_of_getElem? hc)
      rw [hparen.not_isNameChar] at hmem
      cases hmem
    · rw [List.getElem?_append_right (Nat.le_refl _), Nat.sub_self] at hc
      exact hparen.ne_apostrophe (Option.some.inj hc).symm
  · show i + 1 < (Scanner.quoted code payload).text.length
    obtain ⟨hlt, hget⟩ := List.getElem?_eq_some_iff.1 hc
    simp only [List.length_append, List.length_cons, List.length_nil] at hlt
    by_contra hle
    -- the last character is the apostrophe that closes the payload
    have hlast : i = (code ++ '\'' :: Text.doubled payload).length := by
      simp only [List.length_append, List.length_cons]
      omega
    rw [← List.cons_append, ← List.append_assoc, hlast,
      List.getElem?_append_right (Nat.le_refl _), Nat.sub_self] at hc
    exact hparen.ne_apostrophe (Option.some.inj hc).symm

/-- A parenthesis in the spelling of a token is the token or is in its payload. -/
theorem Spells.eq_paren_or_quotes (h : Spells registers before token spelling)
    (hparen : IsParen paren c) (hc : spelling[i]? = some c) :
    token = paren ∧ i = 0 ∨ token.Quotes i := by
  have hmem : c ∈ spelling := List.mem_of_getElem? hc
  have hnames : (∀ d ∈ spelling, isNameChar d = true ∨ d = '\'') →
      token = paren ∧ i = 0 ∨ token.Quotes i := by
    intro hall
    rcases hall c hmem with hname | hquote
    · rw [hparen.not_isNameChar] at hname
      cases hname
    · exact absurd hquote hparen.ne_apostrophe
  have hone : ∀ d, spelling = [d] → i = 0 ∧ d = c := by
    rintro d rfl
    simpa [List.getElem?_singleton] using hc
  cases h with
  | decimal hne hdigits hvalue =>
    exact hnames fun d hd => .inl (isNameChar_of_isDigit (hdigits d hd))
  | register hname _ | symbol hname _ => exact hnames fun d hd => .inl (hname.chars d hd)
  | lengthOf hletter hne hfield =>
    refine hnames fun d hd => ?_
    rcases List.mem_cons.1 hd with rfl | hd
    · exact .inl ((isName_lengthCode hletter).1.chars d List.mem_cons_self)
    · rcases List.mem_cons.1 hd with rfl | hd
      · exact .inr rfl
      · exact .inl (hfield d hd)
  | literal hname hcode =>
    exact .inr (quotes_of_getElem? hname (isLengthCode_iff.not.2 (not_or.2 hcode)) hparen hc)
  | leftParen =>
    obtain ⟨hi, rfl⟩ := hone _ rfl
    rcases hparen with ⟨rfl, -⟩ | ⟨-, hd⟩
    · exact .inl ⟨rfl, hi⟩
    · cases hd
  | rightParen =>
    obtain ⟨hi, rfl⟩ := hone _ rfl
    rcases hparen with ⟨-, hd⟩ | ⟨rfl, -⟩
    · cases hd
    · exact .inl ⟨rfl, hi⟩
  | comma | counter | times =>
    obtain ⟨-, rfl⟩ := hone _ rfl
    rcases hparen with ⟨-, hd⟩ | ⟨-, hd⟩ <;> cases hd
  | sign hsign =>
    obtain ⟨-, rfl⟩ := hone _ rfl
    rcases hparen with ⟨-, rfl⟩ | ⟨-, rfl⟩ <;> simp at hsign

theorem Spells.eq_of_isParen (h : Spells registers before paren spelling)
    (hparen : IsParen paren c) : spelling = [c] := by
  rcases hparen with ⟨rfl, rfl⟩ | ⟨rfl, rfl⟩ <;> cases h <;> rfl

theorem IsParen.not_quotes (h : IsParen paren c) : ¬ paren.Quotes i := by
  rcases h with ⟨rfl, -⟩ | ⟨rfl, -⟩ <;> exact id

theorem Spells.eq_paren_iff (h : Spells registers before token spelling)
    (hparen : IsParen paren c) :
    token = paren ∧ i = 0 ↔ spelling[i]? = some c ∧ ¬ token.Quotes i := by
  constructor
  · rintro ⟨rfl, rfl⟩
    rw [h.eq_of_isParen hparen]
    exact ⟨rfl, hparen.not_quotes⟩
  · rintro ⟨hc, hquotes⟩
    exact (h.eq_paren_or_quotes hparen hc).resolve_right hquotes

theorem Spells.ne_nil (h : Spells registers before token spelling) : spelling ≠ [] := by
  cases h with
  | decimal hne => exact hne
  | register hname | symbol hname => exact hname.ne_nil
  | _ => simp

theorem Spells.lt_of_quotes (h : Spells registers before token spelling) (hi : token.Quotes i) :
    i < spelling.length := by
  cases h with
  | @literal code payload hname hcode =>
    have hlength := length_text_quoted (isLengthCode_iff.not.2 (not_or.2 hcode)) payload
    have hlt : i + 1 < (Scanner.quoted code payload).text.length := hi.2.2
    simp only [List.length_append, List.length_cons, List.length_nil]
    omega
  | lengthOf => exact absurd (by decide) hi.1
  | _ => exact hi.elim

theorem inPayload_concat :
    InPayload (front ++ [(token, offset)]) k ↔
      InPayload front k ∨ ∃ i, k = offset + i ∧ token.Quotes i := by
  constructor
  · rintro ⟨token', offset', i, hmem, hk, hi⟩
    rcases List.mem_append.1 hmem with hmem | hmem
    · exact .inl ⟨token', offset', i, hmem, hk, hi⟩
    · obtain ⟨rfl, rfl⟩ : token' = token ∧ offset' = offset := by simpa using hmem
      exact .inr ⟨i, hk, hi⟩
  · rintro (⟨token', offset', i, hmem, hk, hi⟩ | ⟨i, hk, hi⟩)
    · exact ⟨token', offset', i, List.mem_append_left _ hmem, hk, hi⟩
    · exact ⟨token, offset, i, by simp, hk, hi⟩

namespace Placed

theorem exists_spelling (h : Placed registers placed text) (hmem : (token, offset) ∈ placed) :
    ∃ before spelling, Spells registers before token spelling ∧
      offset + spelling.length ≤ text.length := by
  obtain ⟨front, behind, rfl⟩ := List.append_of_mem hmem
  obtain ⟨text', gap, spelling, rest, rfl, -, -, hspells, rfl⟩ := h.split
  refine ⟨_, spelling, hspells, ?_⟩
  simp only [List.length_append]
  omega

theorem lt_of_mem (h : Placed registers placed text) (hmem : (token, offset) ∈ placed) :
    offset < text.length := by
  obtain ⟨before, spelling, hspells, hle⟩ := h.exists_spelling hmem
  have hpos := List.length_pos_of_ne_nil hspells.ne_nil
  omega

theorem lt_of_inPayload (h : Placed registers placed text) (hk : InPayload placed k) :
    k < text.length := by
  obtain ⟨token, offset, i, hmem, rfl, hi⟩ := hk
  obtain ⟨before, spelling, hspells, hle⟩ := h.exists_spelling hmem
  have hlt := hspells.lt_of_quotes hi
  omega

theorem mem_iff (h : Placed registers placed text) (hparen : IsParen paren c) :
    (paren, k) ∈ placed ↔ text[k]? = some c ∧ ¬ InPayload placed k := by
  induction h with
  | nil => simp
  | @concat front token text gap spelling hfront hgap hneeds hspells ih =>
    rw [inPayload_concat]
    by_cases hk : k < text.length
    · -- a character of the tokens before
      have hmem : (paren, k) ∈ front ++ [(token, text.length + gap.length)] ↔
          (paren, k) ∈ front := by
        simp
        omega
      have hpayload : ¬ ∃ i, k = text.length + gap.length + i ∧ token.Quotes i := by
        rintro ⟨i, hi, -⟩
        omega
      rw [hmem, ih, List.getElem?_append_left hk, or_iff_left hpayload]
    · have hmem : (paren, k) ∈ front ++ [(token, text.length + gap.length)] ↔
          paren = token ∧ k = text.length + gap.length := by
        have hnot : (paren, k) ∉ front := fun h => hk (hfront.lt_of_mem h)
        simp [hnot]
      have hpayload : ¬ InPayload front k := fun h => hk (hfront.lt_of_inPayload h)
      rw [hmem, or_iff_right hpayload, List.getElem?_append_right (Nat.not_lt.1 hk)]
      by_cases hgap' : k - text.length < gap.length
      · -- a blank before the token
        rw [List.getElem?_append_left hgap']
        refine iff_of_false (by omega) fun hc => ?_
        have hspace := hgap c (List.mem_of_getElem? hc.1)
        rw [hparen.not_isSpace] at hspace
        cases hspace
      · obtain ⟨i, rfl⟩ := Nat.exists_eq_add_of_le (show text.length + gap.length ≤ k by omega)
        have hindex : text.length + gap.length + i - text.length - gap.length = i := by omega
        rw [List.getElem?_append_right (Nat.not_lt.1 hgap'), hindex]
        have hpayload : (∃ j, text.length + gap.length + i = text.length + gap.length + j ∧
            token.Quotes j) ↔ token.Quotes i := by simp
        rw [hpayload, ← hspells.eq_paren_iff hparen]
        refine and_congr eq_comm ?_
        omega

end Placed

/-- The parentheses among the tokens are those of the text that no payload holds. -/
theorem Places.mem_iff {operand : String} (h : Places registers operand placed)
    (hparen : IsParen paren c) :
    (paren, k) ∈ placed ↔ operand.toList[k]? = some c ∧ ¬ InPayload placed k := by
  obtain ⟨text, gap, hoperand, hgap, hplaced⟩ := h
  rw [hplaced.mem_iff hparen, hoperand]
  refine and_congr_left fun _ => ?_
  by_cases hk : k < text.length
  · rw [List.getElem?_append_left hk]
  · rw [List.getElem?_append_right (Nat.not_lt.1 hk), List.getElem?_eq_none (Nat.not_lt.1 hk)]
    refine iff_of_false nofun fun hc => ?_
    have hspace := hgap c (List.mem_of_getElem? hc)
    rw [hparen.not_isSpace] at hspace
    cases hspace

end AsmLayout.Token
