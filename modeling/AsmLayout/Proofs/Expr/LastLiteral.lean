import AsmLayout.Proofs.Expr.Brackets

/-!
# The type of an expression

An expression with a value has the type of the last typed literal in its text. The reduction takes
every operand once, in the order of the text, and keeps the last type it meets
(`Expr.Reduction.type_foldlM`). Main statement: `Expr.evaluate_type`.
-/

namespace AsmLayout.Expr

def Piece.operand? : Piece → Option (List Char)
  | .operand text => some text
  | .operator _ | .leftParen | .rightParen => none

/-- The operands of an expression from left to right. -/
def operands (text : String) : List (List Char) := (pieces text).filterMap Piece.operand?

theorem Spaced.blank {ps : List Piece} {text : List Char} {c : Char} (h : Spaced ps text)
    (hc : Text.isBlank c = true) : Spaced ps (text ++ [c]) := by
  induction h with
  | nil hgap => exact .nil (by simpa [or_imp, forall_and, hc] using hgap)
  | cons hgap _ ih =>
    rw [List.append_assoc, List.append_assoc]
    exact .cons hgap ih

theorem Spaced.concat {ps : List Piece} {text : List Char} (h : Spaced ps text) (piece : Piece) :
    Spaced (ps ++ [piece]) (text ++ piece.text) := by
  induction h with
  | @nil gap hgap =>
    have hone : Spaced [piece] (gap ++ (piece.text ++ [])) := .cons hgap (.nil nofun)
    rwa [List.append_nil] at hone
  | cons hgap _ ih =>
    rw [List.append_assoc, List.append_assoc]
    exact .cons hgap ih

namespace Splitter

variable {pieces : List Piece} {current read cs : List Char} {c : Char} {σ : Splitter}

/-- The text read so far is the pieces, with white space around them, and the open operand. -/
def Keeps (σ : Splitter) (read : List Char) : Prop :=
  ∃ text, read = text ++ σ.current ∧ Spaced σ.pieces text

theorem Keeps.flush {quoting : Quoting} (h : Keeps ⟨pieces, current, quoting⟩ read) :
    Spaced (flushed pieces current) read := by
  obtain ⟨text, hread, hspaced⟩ := h
  dsimp only at hread hspaced
  cases current with
  | nil => rwa [hread, List.append_nil]
  | cons d ds =>
    rw [Token.flushed_of_ne (List.cons_ne_nil d ds), hread]
    exact hspaced.concat (.operand (d :: ds))

theorem Keeps.keep {quoting quoting' : Quoting} (h : Keeps ⟨pieces, current, quoting⟩ read)
    (c : Char) : Keeps ⟨pieces, current ++ [c], quoting'⟩ (read ++ [c]) := by
  obtain ⟨text, hread, hspaced⟩ := h
  exact ⟨text, by rw [hread, List.append_assoc], hspaced⟩

theorem Keeps.mark {quoting : Quoting} {piece : Piece} (h : Keeps ⟨pieces, current, quoting⟩ read)
    (hpiece : piece.text = [c]) :
    Keeps ⟨flushed pieces current ++ [piece], [], .outside⟩ (read ++ [c]) := by
  refine ⟨read ++ [c], (List.append_nil _).symm, ?_⟩
  rw [← hpiece]
  exact h.flush.concat piece

theorem Keeps.stepOutside {quoting : Quoting} (h : Keeps ⟨pieces, current, quoting⟩ read) :
    Keeps (Splitter.stepOutside pieces current c) (read ++ [c]) := by
  unfold Splitter.stepOutside
  split
  · exact h.keep c
  split
  · next hopen => exact h.mark (by rw [eq_of_beq hopen]; rfl)
  split
  · next hclose => exact h.mark (by rw [eq_of_beq hclose]; rfl)
  split
  · -- a counter begins where no operand is open
    next hstar =>
    simp only [Bool.and_eq_true, List.isEmpty_iff] at hstar
    obtain ⟨⟨-, rfl⟩, -⟩ := hstar
    exact h.keep c
  split
  · exact h.mark rfl
  split
  · next hblank => exact ⟨read ++ [c], (List.append_nil _).symm, h.flush.blank hblank⟩
  · exact h.keep c

theorem Keeps.step (h : Keeps σ read) : Keeps (σ.step c) (read ++ [c]) := by
  obtain ⟨pieces, current, quoting⟩ := σ
  unfold Splitter.step
  cases quoting with
  | outside => exact h.stepOutside
  | inside => exact h.keep c
  | apostrophe =>
    dsimp only
    split
    · exact h.keep c
    · exact h.stepOutside

theorem Keeps.foldl (h : Keeps σ read) : Keeps (cs.foldl Splitter.step σ) (read ++ cs) := by
  induction cs generalizing σ read with
  | nil => rwa [List.append_nil]
  | cons c cs ih =>
    rw [List.foldl_cons, List.append_cons]
    exact ih h.step

end Splitter

/-- A text that is split is its pieces with white space around them. -/
theorem spaced_of_split {cs : List Char} {ps : List Piece} (h : split cs = some ps) :
    Spaced ps cs := by
  have hstart : Splitter.start.Keeps [] := ⟨[], rfl, .nil nofun⟩
  have hkeeps : (cs.foldl Splitter.step Splitter.start).Keeps cs := hstart.foldl
  unfold split at h
  generalize cs.foldl Splitter.step .start = σ at h hkeeps
  obtain ⟨pieces, current, quoting⟩ := σ
  cases quoting with
  | inside => cases h
  | outside | apostrophe => cases h; exact hkeeps.flush

section Types

variable [TypeCatalog] {L : Lookups} {o : Operand} {code : String} {text field : List Char}
  {ps : List Piece} {terms : List Term}

/-- The type that a code gives a field. -/
def codeType? (code : String) : Option TypeCode :=
  if code.isEmpty || isLengthCode code then none else TypeCatalog.ofCode? code

/-- The type of an operand that is a typed literal. -/
def literalType? (text : List Char) : Option TypeCode :=
  if '\'' ∈ text then codeType? (String.ofList (text.takeWhile (· != '\''))) else none

/-- A decimal, the counter, a symbol with a value or a length attribute with one. -/
inductive IsUntyped (L : Lookups) : List Char → Prop
  | decimal {digits : List Char} (hne : digits ≠ []) (hdigits : ∀ c ∈ digits, c.isDigit = true) :
      IsUntyped L digits
  | counter : IsUntyped L ['*']
  | symbol {name : List Char} {n : Int64} (hname : '\'' ∉ name)
      (hvalue : L.symbols.displacement (symbolKey name) = some n) : IsUntyped L name
  /-- No code stands before the apostrophe. -/
  | quotedSymbol {field : List Char} {n : Int64}
      (hvalue : L.symbols.displacement (symbolKey (Text.undoubled (withoutClosing field))) =
        some n) : IsUntyped L ('\'' :: field)
  | lengthOf {c : Char} {field : List Char} {n : Int64} (hc : c = 'L' ∨ c = 'l')
      (hvalue : L.symbols.length (symbolKey (Text.undoubled (withoutClosing field))) = some n) :
      IsUntyped L (c :: '\'' :: field)

theorem literalType?_of_notMem (h : '\'' ∉ text) : literalType? text = none := if_neg h

theorem IsUntyped.literalType? (h : IsUntyped L text) : literalType? text = none := by
  cases h with
  | decimal hne hdigits =>
    exact literalType?_of_notMem fun hmem => absurd (hdigits _ hmem) (by decide)
  | counter => exact literalType?_of_notMem (by decide)
  | symbol hname => exact literalType?_of_notMem hname
  | quotedSymbol => rfl
  | @lengthOf c field n hc =>
    have htake : (c :: '\'' :: field).takeWhile (· != '\'') = [c] := by
      rcases hc with rfl | rfl <;> rfl
    rw [Expr.literalType?, if_pos (by simp), htake, codeType?, (isName_lengthCode hc).2,
      Bool.or_true, if_pos rfl]

/-- A field has the type of its code, or it has none and reads a symbol. -/
theorem resolveField_type (h : resolveField L code field = .ok o) :
    o.type = codeType? code ∧ (o.type = none →
      code.isEmpty = true ∧ (∃ n, L.symbols.displacement (symbolKey field) = some n) ∨
      isLengthCode code = true ∧ ∃ n, L.symbols.length (symbolKey field) = some n) := by
  unfold resolveField at h
  unfold codeType?
  by_cases hempty : code.isEmpty = true
  · rw [if_pos hempty] at h
    rw [hempty, Bool.true_or, if_pos rfl]
    split at h
    · next n hn => cases h; exact ⟨rfl, fun _ => .inl ⟨rfl, n, hn⟩⟩
    · cases h
  rw [if_neg hempty] at h
  by_cases hlength : isLengthCode code = true
  · rw [if_pos hlength] at h
    rw [hlength, Bool.or_true, if_pos rfl]
    split at h
    · next n hn => cases h; exact ⟨rfl, fun _ => .inr ⟨rfl, n, hn⟩⟩
    · cases h
  rw [if_neg hlength] at h
  rw [if_neg (by simp [hempty, hlength])]
  split at h
  · next type htype =>
    cases hvalue : selfDefining type field with
    | error e => rw [hvalue] at h; cases h
    | ok value => rw [hvalue] at h; cases h; exact ⟨htype.symm, nofun⟩
  · cases h

/-- An operand that is no typed literal is a decimal, the counter, a symbol or a length. -/
theorem resolveText_type (h : resolveText L text = .ok o) :
    o.type = literalType? text ∧ (o.type = none → IsUntyped L text) := by
  have huntyped : o.type = none → IsUntyped L text →
      o.type = literalType? text ∧ (o.type = none → IsUntyped L text) :=
    fun htype h => ⟨by rw [htype, h.literalType?], fun _ => h⟩
  unfold resolveText at h
  split at h
  · next value hvalue =>
    obtain ⟨hne, hdigits, -⟩ := Text.decimal?_eq_some_iff.1 hvalue
    split at h
    · cases h; exact huntyped rfl (.decimal hne hdigits)
    · cases h
  split at h
  · next hstar =>
    cases h
    rw [hstar] at huntyped ⊢
    exact huntyped rfl .counter
  split at h
  · next hdrop =>
    have hquote : '\'' ∉ text := by
      intro hmem
      rw [List.dropWhile_eq_nil_iff] at hdrop
      exact absurd (hdrop '\'' hmem) (by decide)
    obtain ⟨htype, hreads⟩ := resolveField_type h
    have hnone : o.type = none := htype
    rcases hreads hnone with ⟨-, n, hn⟩ | ⟨hlength, -⟩
    · exact huntyped hnone (.symbol hquote hn)
    · exact absurd hlength (by decide)
  · next d rest hdrop =>
    have hd : d = '\'' := by
      have hhead := List.head?_dropWhile_not (· != '\'') text
      rw [hdrop] at hhead
      simpa using hhead
    subst hd
    have htext := List.takeWhile_append_dropWhile (p := (· != '\'')) (l := text)
    rw [hdrop] at htext
    obtain ⟨htype, hreads⟩ := resolveField_type h
    refine ⟨?_, fun hnone => ?_⟩
    · have hmem : '\'' ∈ text := by rw [← htext]; simp
      rw [htype, Expr.literalType?, if_pos hmem]
    · rw [← htext]
      rcases hreads hnone with ⟨hempty, n, hn⟩ | ⟨hlength, n, hn⟩
      · rw [Text.isEmpty_ofList, List.isEmpty_iff] at hempty
        rw [hempty]
        exact .quotedSymbol hn
      · rcases isLengthCode_iff.1 hlength with hcode | hcode
        · rw [hcode]; exact .lengthOf (.inl rfl) hn
        · rw [hcode]; exact .lengthOf (.inr rfl) hn

def Term.type? : Term → Option TypeCode
  | .operand o => o.type
  | .operator _ | .leftParen | .rightParen => none

/-- The types of the terms are those of the typed literals. -/
theorem types_of_resolves (h : List.Forall₂ (fun p term => resolvePiece L p = .ok term) ps terms) :
    terms.filterMap Term.type? = (ps.filterMap Piece.operand?).filterMap literalType? := by
  induction h with
  | nil => rfl
  | @cons piece term ps terms hone _ ih =>
    have hpiece := piece_of_resolvePiece hone
    cases term with
    | operand o =>
      obtain ⟨text, rfl, hvalue⟩ := hpiece
      have htype : Term.type? (.operand o) = literalType? text := (resolveText_type hvalue).1
      rw [List.filterMap_cons, htype, ih]
      rfl
    | operator | leftParen | rightParen =>
      rw [hpiece]
      exact ih

theorem resolved_of_mem (h : List.Forall₂ (fun p term => resolvePiece L p = .ok term) ps terms)
    (hmem : text ∈ ps.filterMap Piece.operand?) : ∃ o, resolveText L text = .ok o := by
  induction h with
  | nil => cases hmem
  | @cons piece term ps terms hone _ ih =>
    have hpiece := piece_of_resolvePiece hone
    cases term with
    | operand o =>
      obtain ⟨text', rfl, hvalue⟩ := hpiece
      rcases List.mem_cons.1 hmem with rfl | hmem
      · exact ⟨o, hvalue⟩
      · exact ih hmem
    | operator | leftParen | rightParen =>
      rw [hpiece] at hmem
      exact ih hmem

end Types

/-! ### The type of a reduction -/

namespace Reduction

variable {s s' : Reduction} {term : Term} {terms : List Term} {o : Operand}

theorem type_supply {outer : List Level} {level : Level} {n : Int64}
    (h : supply s outer level n = .ok s') : s'.type = s.type := by
  unfold supply at h
  cases hvalue : multiplied level n with
  | error failure => rw [hvalue] at h; cases h
  | ok value => rw [hvalue] at h; cases h; rfl

theorem type_stepFactor {level : Level} (h : stepFactor s level term = .ok s') :
    s'.type = (Term.type? term).or s.type := by
  unfold stepFactor at h
  split at h
  · exact type_supply h
  · cases h
  · cases h; rfl
  · cases h; rfl
  · cases h; rfl
  · cases h
  · cases h

/-- No operand comes directly after a complete factor. -/
theorem type_stepSum {total : Int64} (h : stepSum s total term = .ok s') :
    s'.type = s.type ∧ Term.type? term = none := by
  unfold stepSum at h
  cases term with
  | operand o => cases hout : s.outer <;> rw [hout] at h <;> cases h
  | operator c =>
    dsimp only at h
    split at h
    · cases h; exact ⟨rfl, rfl⟩
    · next hparen => cases hparen
    · cases h
    · cases h
  | leftParen => cases hout : s.outer <;> rw [hout] at h <;> cases h
  | rightParen =>
    cases hout : s.outer with
    | nil => rw [hout] at h; cases h
    | cons level outer => rw [hout] at h; exact ⟨type_supply h, rfl⟩

theorem type_stepProduct {sum : Option (Int64 × AddSign)} {value : Int64}
    (h : stepProduct s sum value term = .ok s') : s'.type = s.type ∧ Term.type? term = none := by
  have hsum : (do stepSum s (← added sum value) term) = Except.ok s' →
      s'.type = s.type ∧ Term.type? term = none := by
    intro h
    cases htotal : added sum value with
    | error failure => rw [htotal] at h; cases h
    | ok total => rw [htotal] at h; exact type_stepSum h
  unfold stepProduct at h
  cases term with
  | operator c =>
    dsimp only at h
    split at h
    · cases h; exact ⟨rfl, rfl⟩
    · exact hsum h
  | operand | leftParen | rightParen => exact hsum h

/-- A term with a type replaces the type before it. -/
theorem type_step (h : s.step term = .ok s') : s'.type = (Term.type? term).or s.type := by
  unfold step at h
  split at h
  · exact type_stepFactor h
  · obtain ⟨htype, hnone⟩ := type_stepProduct h
    rw [htype, hnone, Option.none_or]

theorem type_foldlM (h : terms.foldlM step s = .ok s') :
    s'.type = ((terms.filterMap Term.type?).getLast?).or s.type := by
  induction terms generalizing s with
  | nil => cases h; rfl
  | cons term terms ih =>
    rw [List.foldlM_cons] at h
    cases hstep : s.step term with
    | error failure => rw [hstep] at h; cases h
    | ok s₁ =>
      rw [hstep] at h
      rw [ih h, type_step hstep, List.filterMap_cons]
      cases Term.type? term with
      | none => rfl
      | some type =>
        rw [List.getLast?_cons]
        cases (terms.filterMap Term.type?).getLast? <;> rfl

theorem type_finish (h : s.finish = .ok o) : o.type = s.type := by
  unfold finish at h
  split at h
  · cases h
  · next sum value _ =>
    cases htotal : added sum value with
    | error failure => rw [htotal] at h; cases h
    | ok total =>
      rw [htotal] at h
      change (if s.outer.isEmpty then _ else _) = Except.ok o at h
      split at h
      · cases h; rfl
      · cases h

end Reduction

theorem type_reduce {terms : List Term} {o : Operand} (h : reduce terms = .ok o) :
    o.type = (terms.filterMap Term.type?).getLast? := by
  unfold reduce at h
  split at h
  · cases h
  · -- a lone operand keeps its own type
    next o' =>
    cases h
    rw [List.filterMap_cons]
    cases htype : Term.type? (.operand o) with
    | none => exact htype
    | some type => exact htype
  · cases hrun : terms.foldlM Reduction.step .start with
    | error failure => rw [hrun] at h; cases h
    | ok s =>
      rw [hrun] at h
      rw [Reduction.type_finish h, Reduction.type_foldlM hrun]
      exact Option.or_none

/-- The pieces of an expression stand in its text one after the other. If it has a value, its type
is that of the last typed literal among its operands, and it has none exactly if every operand is a
decimal, the counter, a symbol or a length. -/
theorem evaluate_type [TypeCatalog] {L : Lookups} {text : String} {o : Operand}
    (h : evaluate L text = .ok o) :
    Spaced (pieces text) text.toList ∧
    o.type = ((operands text).filterMap literalType?).getLast? ∧
    (o.type = none ↔ ∀ operand ∈ operands text, IsUntyped L operand) := by
  obtain ⟨ps, terms, hsplit, hterms, hreduce⟩ := exists_terms_of_evaluate h
  have hresolves := forall₂_of_mapM hterms
  have hpieces : pieces text = ps := by rw [pieces, split_strip, hsplit, Option.getD_some]
  have hoperands : operands text = ps.filterMap Piece.operand? := by rw [operands, hpieces]
  have htype : o.type = ((operands text).filterMap literalType?).getLast? := by
    rw [type_reduce hreduce, types_of_resolves hresolves, hoperands]
  refine ⟨hpieces ▸ spaced_of_split hsplit, htype, ?_⟩
  rw [htype, List.getLast?_eq_none_iff, List.filterMap_eq_nil_iff]
  constructor
  · intro hnone operand hmem
    obtain ⟨o', ho'⟩ := resolved_of_mem hresolves (hoperands ▸ hmem)
    obtain ⟨htype', huntyped⟩ := resolveText_type ho'
    exact huntyped (htype'.trans (hnone operand hmem))
  · exact fun huntyped operand hmem => (huntyped operand hmem).literalType?

/-- The last literal stands under signs and in parentheses and is not the last operand; the operands
of the second expression have no type. -/
theorem evaluate_type_nested :
    let L : Lookups := ⟨10, SymbolMap.symbols ⟨[("A", (3, 1))]⟩, none⟩
    let typed := "-(F'2' + (x'1F'*-(A))) - l'A*2"
    let untyped := " *+(A) - 2"
    (evaluate L typed = .ok ⟨.int 89, some .x⟩ ∧ Spaced (pieces typed) typed.toList ∧
      some .x = ((operands typed).filterMap literalType?).getLast?) ∧
    evaluate L untyped = .ok ⟨.int 11, none⟩ ∧ Spaced (pieces untyped) untyped.toList ∧
      ∀ operand ∈ operands untyped, IsUntyped L operand := by
  intro L typed untyped
  have htyped : evaluate L typed = .ok ⟨.int 89, some .x⟩ := by decide +kernel
  have huntyped : evaluate L untyped = .ok ⟨.int 11, none⟩ := by decide +kernel
  obtain ⟨hspaced, htype, -⟩ := evaluate_type htyped
  obtain ⟨hspaced', -, hnone⟩ := evaluate_type huntyped
  exact ⟨⟨htyped, hspaced, htype⟩, huntyped, hspaced', hnone.1 rfl⟩

end AsmLayout.Expr
