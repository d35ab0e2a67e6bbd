import AsmLayout.Proofs.Expr.Brackets
import AsmLayout.Proofs.Expr.Operands

/-!
# Operands that have a value divide into tokens

The splitter takes a text apart without a look at the pieces; a value tells that each of them is
written like a token (`Expr.IsRegular.spells`) and that operands and signs alternate
(`Expr.ordered_of_reduce`). Main statement: `Expr.scan_of_evaluate` (an operand that has a value
divides into tokens, unless one of three lenient readings is used).
`Expr.scan_of_evaluate_not_always` shows each of them.
-/

namespace AsmLayout.Expr

open Token

variable {L : Lookups} {o : Operand} {registers : String → Option UInt8} {tokens : List Token}
  {token : Token} {ps pieces : List Piece} {piece : Piece} {terms : List Term} {term : Term}
  {text gap current read cs : List Char} {c : Char} {quoting : Quoting} {due : Bool}

/-- The characters that the splitter meets outside quotes, apostrophes included. -/
def unquoted : Splitter → List Char → List Char
  | _, [] => []
  | σ, c :: cs =>
    if σ.quoting = .inside then unquoted (σ.step c) cs else c :: unquoted (σ.step c) cs

/-- The text is the pieces, each behind a gap. -/
inductive Spread : List Piece → List Char → Prop
  | nil : Spread [] []
  | concat {ps : List Piece} {piece : Piece} {text gap : List Char} (h : Spread ps text)
      (hgap : IsGap gap) : Spread (ps ++ [piece]) (text ++ (gap ++ piece.text))

namespace Splitter

/-- The splitter has read the pieces, a gap and the open operand. All operands are whole. -/
structure HasRead (σ : Splitter) (read : List Char) : Prop where
  current : σ.current.foldl Splitter.step Splitter.start = ⟨[], σ.current, σ.quoting⟩
  pieces : ∀ text, .operand text ∈ σ.pieces → IsWhole text
  spread : ∃ text gap, read = text ++ (gap ++ σ.current) ∧ IsGap gap ∧ Spread σ.pieces text

/-- The open operand ends outside quotes. -/
theorem HasRead.flush (h : HasRead ⟨pieces, current, quoting⟩ read) (hquoting : quoting ≠ .inside) :
    (∀ text, .operand text ∈ flushed pieces current → IsWhole text) ∧
      ∃ text gap, read = text ++ gap ∧ IsGap gap ∧ Spread (flushed pieces current) text := by
  obtain ⟨hcurrent, hpieces, text, gap, hread, hgap, hspread⟩ := h
  dsimp only at hcurrent hpieces hread hspread
  cases current with
  | nil =>
    rw [List.append_nil] at hread
    exact ⟨hpieces, text, gap, hread, hgap, hspread⟩
  | cons d ds =>
    rw [flushed_of_ne (List.cons_ne_nil d ds)]
    refine ⟨fun cs hcs => ?_, read, [], by rw [List.append_nil], isGap_nil, ?_⟩
    · rcases List.mem_append.1 hcs with hcs | hcs
      · exact hpieces cs hcs
      · obtain rfl : cs = d :: ds := by simpa using hcs
        exact ⟨quoting, hquoting, hcurrent⟩
    · rw [hread]
      have hconcat : Spread (pieces ++ [.operand (d :: ds)]) (text ++ (gap ++ (d :: ds))) :=
        .concat hspread hgap
      exact hconcat

theorem HasRead.keep {quoting' : Quoting} (h : HasRead ⟨pieces, current, quoting⟩ read)
    (hstep : Splitter.step ⟨[], current, quoting⟩ c = ⟨[], current ++ [c], quoting'⟩) :
    HasRead ⟨pieces, current ++ [c], quoting'⟩ (read ++ [c]) := by
  obtain ⟨hcurrent, hpieces, text, gap, hread, hgap, hspread⟩ := h
  dsimp only at hcurrent hpieces hread hspread
  refine ⟨?_, hpieces, text, gap, ?_, hgap, hspread⟩
  · rw [List.foldl_append, hcurrent, List.foldl_cons, hstep]
    rfl
  · rw [hread, List.append_assoc, List.append_assoc]

theorem hasRead_pieces (hpieces : ∀ text, .operand text ∈ pieces → IsWhole text)
    (hread : read = text ++ gap) (hgap : IsGap gap) (hspread : Spread pieces text) :
    HasRead ⟨pieces, [], .outside⟩ read :=
  ⟨rfl, hpieces, text, gap, by rw [hread, List.append_nil], hgap, hspread⟩

/-- A sign or a parenthesis ends the open operand and is a piece of its own. -/
theorem HasRead.mark (h : HasRead ⟨pieces, current, quoting⟩ read) (hquoting : quoting ≠ .inside)
    (htext : piece.text = [c]) (hpiece : ∀ text, piece ≠ .operand text) :
    HasRead ⟨flushed pieces current ++ [piece], [], .outside⟩ (read ++ [c]) := by
  obtain ⟨hwhole, text, gap, hread, hgap, hspread⟩ := h.flush hquoting
  refine hasRead_pieces (fun cs hcs => ?_) (List.append_nil (read ++ [c])).symm isGap_nil ?_
  · rcases List.mem_append.1 hcs with hcs | hcs
    · exact hwhole cs hcs
    · exact absurd (List.mem_singleton.1 hcs).symm (hpiece cs)
  · have hconcat : Spread (flushed pieces current ++ [piece]) (text ++ (gap ++ piece.text)) :=
      .concat hspread hgap
    rwa [htext, ← List.append_assoc, ← hread] at hconcat

theorem HasRead.stepOutside (h : HasRead ⟨pieces, current, quoting⟩ read)
    (hquoting : quoting ≠ .inside) (hc : Text.isBlank c = true → isSpace c = true)
    (hstep : Splitter.step ⟨[], current, quoting⟩ c = Splitter.stepOutside [] current c) :
    HasRead (Splitter.stepOutside pieces current c) (read ++ [c]) := by
  unfold Splitter.stepOutside at hstep ⊢
  split
  · next hquote => rw [if_pos hquote] at hstep; exact h.keep hstep
  next hquote =>
  rw [if_neg hquote] at hstep
  split
  · next hopen => exact h.mark hquoting (by rw [eq_of_beq hopen]; rfl) nofun
  next hopen =>
  rw [if_neg hopen] at hstep
  split
  · next hclose => exact h.mark hquoting (by rw [eq_of_beq hclose]; rfl) nofun
  next hclose =>
  rw [if_neg hclose] at hstep
  split
  · -- a counter begins where no operand is open
    next hstar =>
    simp only [Bool.and_eq_true, beq_iff_eq, List.isEmpty_iff] at hstar
    obtain ⟨⟨rfl, rfl⟩, -⟩ := hstar
    obtain ⟨-, hpieces, text, gap, hread, hgap, hspread⟩ := h
    refine ⟨rfl, hpieces, text, gap, ?_, hgap, hspread⟩
    rw [hread, List.append_nil, List.append_assoc]
  split
  · exact h.mark hquoting rfl nofun
  next hsign =>
  split
  · -- a blank belongs to the gap behind the operand that it ends
    next hblank =>
    obtain ⟨hwhole, text, gap, hread, hgap, hspread⟩ := h.flush hquoting
    refine hasRead_pieces hwhole ?_ (hgap.concat (hc hblank)) hspread
    rw [hread, List.append_assoc]
  -- any other character is kept
  next hblank =>
  have hnostar : ¬ (c == '*' && current.isEmpty && operandMayBegin []) = true := by
    intro hstar
    simp only [Bool.and_eq_true] at hstar
    exact hsign (by simp [hstar.1.1])
  rw [if_neg hnostar, if_neg hsign, if_neg hblank] at hstep
  exact h.keep hstep

theorem HasRead.step {σ : Splitter} (h : HasRead σ read)
    (hc : σ.quoting ≠ .inside → Text.isBlank c = true → isSpace c = true) :
    HasRead (σ.step c) (read ++ [c]) := by
  obtain ⟨pieces, current, quoting⟩ := σ
  cases quoting with
  | outside => exact h.stepOutside nofun (hc nofun) rfl
  | inside => exact h.keep rfl
  | apostrophe =>
    unfold Splitter.step
    dsimp only
    split
    · next hquote =>
      refine h.keep ?_
      unfold Splitter.step
      dsimp only
      rw [if_pos hquote]
    · next hquote =>
      refine h.stepOutside nofun (hc nofun) ?_
      unfold Splitter.step
      dsimp only
      rw [if_neg hquote]

theorem HasRead.foldl {σ : Splitter} (h : HasRead σ read)
    (hblanks : ∀ c ∈ unquoted σ cs, Text.isBlank c = true → isSpace c = true) :
    HasRead (cs.foldl Splitter.step σ) (read ++ cs) := by
  induction cs generalizing σ read with
  | nil => rwa [List.append_nil]
  | cons c cs ih =>
    unfold unquoted at hblanks
    rw [List.foldl_cons, List.append_cons]
    by_cases hinside : σ.quoting = .inside
    · rw [if_pos hinside] at hblanks
      exact ih (h.step fun hout => absurd hinside hout) hblanks
    · rw [if_neg hinside] at hblanks
      exact ih (h.step fun _ => hblanks c List.mem_cons_self)
        fun d hd => hblanks d (List.mem_cons_of_mem c hd)

end Splitter

/-- A text that is split is its pieces with gaps, and each operand among them is whole. -/
theorem spread_of_split (h : split cs = some ps)
    (hblanks : ∀ c ∈ unquoted .start cs, Text.isBlank c = true → isSpace c = true) :
    (∀ text, .operand text ∈ ps → IsWhole text) ∧
      ∃ text gap, cs = text ++ gap ∧ IsGap gap ∧ Spread ps text := by
  have hstart : Splitter.HasRead .start [] := ⟨rfl, nofun, [], [], rfl, isGap_nil, .nil⟩
  have hread := hstart.foldl hblanks
  rw [List.nil_append] at hread
  unfold split at h
  generalize cs.foldl Splitter.step .start = σ at h hread
  obtain ⟨pieces, current, quoting⟩ := σ
  cases quoting with
  | inside => cases h
  | outside | apostrophe => cases h; exact hread.flush nofun

/-- A term may follow where an operand is due, or is not due. Then one is due after it, or not. -/
inductive Moves : Bool → Term → Bool → Prop
  | operand (o : Operand) : Moves true (.operand o) false
  | addSign (due : Bool) (sign : AddSign) : Moves due (.operator sign.char) true
  | mulSign (sign : MulSign) : Moves false (.operator sign.char) true
  | leftParen : Moves true .leftParen true
  | rightParen : Moves false .rightParen false

/-- Each term may follow those before it. The flag says whether an operand is due after them all. -/
inductive Ordered : List Term → Bool → Prop
  | nil : Ordered [] true
  | concat {terms : List Term} {term : Term} {due due' : Bool} (h : Ordered terms due)
      (hmoves : Moves due term due') : Ordered (terms ++ [term]) due'

mutual

/-- A derivation stands where an operand is due, and none is due after it. -/
theorem SumTree.ordered (e : SumTree) {terms : List Term} (h : Ordered terms true) :
    Ordered (terms ++ e.terms) false := by
  cases e with
  | product p => exact p.ordered h
  | join left sign right =>
    rw [SumTree.terms, ← List.append_assoc, List.append_cons]
    exact right.ordered (.concat (left.ordered h) (.addSign false sign))

theorem ProductTree.ordered (p : ProductTree) {terms : List Term} (h : Ordered terms true) :
    Ordered (terms ++ p.terms) false := by
  cases p with
  | factor f => exact f.ordered h
  | join left sign right =>
    rw [ProductTree.terms, ← List.append_assoc, List.append_cons]
    exact right.ordered (.concat (left.ordered h) (.mulSign sign))

theorem FactorTree.ordered (f : FactorTree) {terms : List Term} (h : Ordered terms true) :
    Ordered (terms ++ f.terms) false := by
  cases f with
  | operand n type => exact .concat h (.operand _)
  | parens e =>
    rw [FactorTree.terms, List.append_cons, ← List.append_assoc]
    exact .concat (e.ordered (.concat h .leftParen)) .rightParen
  | signed sign f =>
    rw [FactorTree.terms, List.append_cons]
    exact f.ordered (.concat h (.addSign true sign))

end

theorem ordered_of_reduce (h : reduce terms = .ok o) : Ordered terms false := by
  rcases derivation_of_reduce h with ⟨s, type, -, rfl⟩ | ⟨n, type, -, e, rfl, -⟩
  · exact .concat .nil (.operand o)
  · exact e.ordered .nil

/-! ### Writing the tokens -/

theorem counterFits_concat :
    CounterFits (tokens ++ [token]) ↔
      (∃ sign, token = .operator sign) ∨ token = .comma ∨ token = .leftParen := by
  simp [CounterFits]

theorem Resolves.concat (h : Resolves L ps (terms ++ [term])) :
    ∃ before piece, ps = before ++ [piece] ∧ Resolves L before terms ∧
      resolvePiece L piece = .ok term := by
  have hlast := List.forall₂_drop_append ps terms [term] h
  cases hdrop : ps.drop terms.length with
  | nil => rw [hdrop] at hlast; cases hlast
  | cons piece rest =>
    rw [hdrop] at hlast
    cases hlast with
    | cons hpiece hrest =>
      cases hrest
      refine ⟨ps.take terms.length, piece, ?_, List.forall₂_take_append ps terms [term] h, hpiece⟩
      rw [← hdrop, List.take_append_drop]

theorem Spread.of_concat (h : Spread (ps ++ [piece]) cs) :
    ∃ text gap, cs = text ++ (gap ++ piece.text) ∧ IsGap gap ∧ Spread ps text := by
  generalize hqs : ps ++ [piece] = qs at h
  cases h with
  | nil => simp at hqs
  | concat h hgap =>
    obtain ⟨rfl, hpiece⟩ := List.append_inj' hqs rfl
    obtain rfl := (List.cons.inj hpiece).1
    exact ⟨_, _, rfl, hgap, h⟩

/-- A piece whose term may follow is the spelling of a token that may follow. -/
theorem Moves.exists_spells {due' : Bool} (h : Moves due term due')
    (hpiece : resolvePiece L piece = .ok term) (hnames : L.symbols.KnowsNames)
    (hregular : ∀ cs, piece = .operand cs → IsWhole cs ∧ IsRegular cs)
    (hdue : CounterFits tokens ↔ due = true) :
    ∃ token, Spells registers tokens token piece.text ∧ ¬ NeedsGap tokens token ∧
      (CounterFits (tokens ++ [token]) ↔ due' = true) := by
  cases h with
  | operand o =>
    obtain ⟨cs, rfl, hvalue⟩ := piece_of_resolvePiece hpiece
    obtain ⟨hwhole, hreg⟩ := hregular cs rfl
    have hfits := hdue.2 rfl
    obtain ⟨token, hoperand, hspells⟩ := hreg.spells hwhole hnames hvalue hfits
    refine ⟨token, hspells, not_needsGap hfits, ?_⟩
    rw [counterFits_concat]
    cases token <;> simp_all [isOperand]
  | addSign _ sign =>
    obtain rfl : piece = .operator sign.char := piece_of_resolvePiece hpiece
    refine ⟨.operator sign.char, .sign ?_, not_needsGap_of_not_isRun rfl, ?_⟩
    · cases sign <;> decide
    · simp [counterFits_concat]
  | mulSign sign =>
    obtain rfl : piece = .operator sign.char := piece_of_resolvePiece hpiece
    refine ⟨.operator sign.char, ?_, not_needsGap_of_not_isRun rfl, by simp [counterFits_concat]⟩
    cases sign with
    | times => exact .times (by rw [hdue]; exact Bool.false_ne_true)
    | divide => exact .sign (by decide)
  | leftParen =>
    obtain rfl : piece = .leftParen := piece_of_resolvePiece hpiece
    exact ⟨.leftParen, .leftParen, not_needsGap_of_not_isRun rfl, by simp [counterFits_concat]⟩
  | rightParen =>
    obtain rfl : piece = .rightParen := piece_of_resolvePiece hpiece
    exact ⟨.rightParen, .rightParen, not_needsGap_of_not_isRun rfl, by simp [counterFits_concat]⟩

/-- Ordered terms whose operands are regular are written as tokens. -/
theorem Ordered.exists_written (h : Ordered terms due) (hresolves : Resolves L ps terms)
    (hspread : Spread ps text) (hnames : L.symbols.KnowsNames)
    (hregular : ∀ cs, .operand cs ∈ ps → IsWhole cs ∧ IsRegular cs) :
    ∃ tokens, Written registers tokens text ∧ (CounterFits tokens ↔ due = true) := by
  induction h generalizing ps text with
  | nil =>
    cases hresolves
    generalize hqs : ([] : List Piece) = qs at hspread
    cases hspread with
    | nil => exact ⟨[], .nil, by simp [CounterFits]⟩
    | concat => simp at hqs
  | concat _ hmoves ih =>
    obtain ⟨before, piece, rfl, hbefore, hpiece⟩ := hresolves.concat
    obtain ⟨text, gap, rfl, hgap, hspread⟩ := hspread.of_concat
    obtain ⟨tokens, hwritten, hdue⟩ := ih hbefore hspread fun cs hcs =>
      hregular cs (List.mem_append_left _ hcs)
    obtain ⟨token, hspells, hneeds, hdue'⟩ := hmoves.exists_spells hpiece hnames
      (fun cs hcs => hregular cs (List.mem_append_right _ (by rw [hcs]; exact List.mem_cons_self)))
      hdue
    exact ⟨tokens ++ [token], .concat hwritten hgap (fun h => absurd h hneeds) hspells, hdue'⟩

/-- An operand that has a value divides into tokens, if the white space outside quotes in it is
blanks and tabs, the names that have a value are well-formed and its operands are regular. -/
theorem scan_of_evaluate {operand : String}
    (hblanks : ∀ c ∈ unquoted .start operand.toList, Text.isBlank c = true → isSpace c = true)
    (hnames : L.symbols.KnowsNames)
    (hregular : ∀ ps, split operand.toList = some ps → ∀ cs, .operand cs ∈ ps → IsRegular cs)
    (h : evaluate L operand = .ok o) (registers : String → Option UInt8) :
    ∃ tokens, scan registers operand = .ok tokens := by
  obtain ⟨ps, terms, hsplit, -, hresolves, hreduce⟩ := evaluate_eq_ok h
  obtain ⟨hwhole, text, gap, htext, hgap, hspread⟩ := spread_of_split hsplit hblanks
  have horder := ordered_of_reduce hreduce
  obtain ⟨tokens, hwritten, -⟩ := horder.exists_written hresolves hspread hnames
    fun cs hcs => ⟨hwhole cs hcs, hregular ps hsplit cs hcs⟩
  exact ⟨tokens, hwritten.scan hgap htext⟩

/-- One name, with a displacement and a length. -/
def lookupsOfA : Lookups where
  counter := 0
  symbols := ⟨fun name => if name = "A" then some 8 else none,
    fun name => if name = "A" then some 4 else none⟩
  registers := none

theorem knowsNames_lookupsOfA : lookupsOfA.symbols.KnowsNames := by
  have hname : IsName "A".toList := ⟨⟨'A', [], rfl, by decide⟩, by simp [isNameChar]⟩
  refine ⟨fun {name n} hn => ?_, fun {name n} hn => ?_⟩
  · change (if name = "A" then some 8 else none) = some n at hn
    split at hn
    · next heq => rwa [heq]
    · cases hn
  · change (if name = "A" then some 4 else none) = some n at hn
    split at hn
    · next heq => rwa [heq]
    · cases hn

theorem blanks_of_all (h : (cs.all fun c => !Text.isBlank c || isSpace c) = true) :
    ∀ c ∈ cs, Text.isBlank c = true → isSpace c = true := by
  intro c hc hblank
  simpa [hblank] using List.all_eq_true.1 h c hc

theorem scan_of_evaluate_spaced :
    let operand := "2*\t(A&.B + l'A) - X'1F'"
    (∀ c ∈ unquoted .start operand.toList, Text.isBlank c = true → isSpace c = true) ∧
      lookupsOfA.symbols.KnowsNames ∧
      (∀ ps, split operand.toList = some ps → ∀ cs, .operand cs ∈ ps → IsRegular cs) ∧
      evaluate lookupsOfA operand = .ok ⟨.int (-7), some .x⟩ ∧
      ∃ tokens, scan RegisterTable.standard.find? operand = .ok tokens := by
  intro operand
  have hblanks : ∀ c ∈ unquoted .start operand.toList,
      Text.isBlank c = true → isSpace c = true := by
    exact blanks_of_all (by decide +kernel)
  have hregular : ∀ ps, split operand.toList = some ps → ∀ cs, .operand cs ∈ ps → IsRegular cs := by
    intro ps hps cs hcs
    have hsplit : split operand.toList = some [.operand ['2'], .operator '*', .leftParen,
      .operand ['A', '&', '.', 'B'], .operator '+', .operand ['l', '\'', 'A'], .rightParen,
      .operator '-', .operand ['X', '\'', '1', 'F', '\'']] := by decide +kernel
    obtain rfl := Option.some.inj (hps.symm.trans hsplit)
    simp only [List.mem_cons, Piece.operand.injEq, List.not_mem_nil, reduceCtorEq, or_false,
      false_or] at hcs
    rcases hcs with rfl | rfl | rfl | rfl
    · exact .of_notMem (by decide) (by simp [isNameChar])
    · exact .of_notMem (by decide) (by simp [isNameChar])
    · refine ⟨by decide, by decide, ?_, ?_⟩
      · rintro c field - ⟨⟩
        simp
      · rintro c rest hc ⟨⟩
        exact absurd hc (by decide)
    · refine ⟨by decide, by decide, ?_, ?_⟩
      · rintro c field hc ⟨⟩
        exact absurd hc (by decide)
      · rintro c rest hc ⟨⟩
        exact absurd hc (by decide)
  have hvalue : evaluate lookupsOfA operand = .ok ⟨.int (-7), some .x⟩ := by
    show evaluate lookupsOfA "2*\t(A&.B + l'A) - X'1F'" = _
    rfl
  exact ⟨hblanks, knowsNames_lookupsOfA, hregular, hvalue,
    scan_of_evaluate hblanks knowsNames_lookupsOfA hregular hvalue _⟩

/-- If an operand has a value, with white space and names as they should be, it divides into
tokens. -/
def DividesIfValued (operand : String) : Prop :=
  ∀ (L : Lookups) (o : Operand),
    (∀ c ∈ unquoted .start operand.toList, Text.isBlank c = true → isSpace c = true) →
    L.symbols.KnowsNames → evaluate L operand = .ok o →
      ∃ tokens, scan RegisterTable.standard.find? operand = .ok tokens

/-- A name in quotes without a type, a character behind an `&` that no name may hold, and text that
goes on behind the apostrophe that closes it. -/
theorem scan_of_evaluate_not_always :
    ¬ DividesIfValued "'A'" ∧ ¬ DividesIfValued "A&!" ∧ ¬ DividesIfValued "C'AB'CD" := by
  have hrefute : ∀ operand o, ((unquoted .start operand.toList).all
      fun c => !Text.isBlank c || isSpace c) = true → evaluate lookupsOfA operand = .ok o →
      (scan RegisterTable.standard.find? operand).toOption = none → ¬ DividesIfValued operand := by
    intro operand o hall hvalue hscan h
    obtain ⟨tokens, htokens⟩ := h lookupsOfA o (blanks_of_all hall) knowsNames_lookupsOfA hvalue
    rw [htokens] at hscan
    cases hscan
  exact ⟨hrefute _ ⟨.int 8, none⟩ (by decide +kernel) rfl (by decide +kernel),
    hrefute _ ⟨.int 8, none⟩ (by decide +kernel) rfl (by decide +kernel),
    hrefute _ ⟨.text "AB'CD", some .c⟩ (by decide +kernel) rfl (by decide +kernel)⟩

end AsmLayout.Expr
