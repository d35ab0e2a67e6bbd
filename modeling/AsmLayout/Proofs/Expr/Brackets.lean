import AsmLayout.Proofs.Expr.EntryPoints
import AsmLayout.Proofs.Expr.Meaning
import AsmLayout.Proofs.Token.Acceptance

/-!
# Parentheses in expressions

`Bracket.depth?` counts the open parentheses of tokens, pieces or terms. Terms with a value are
balanced (`Expr.reduce_balanced`), hence so are the tokens of an operand with a value, unless a
comma is among them (`Token.balanced_of_evaluate`). Main statement: `Expr.evaluate_parens`
(parentheses around an operand with a number change nothing).
-/

namespace AsmLayout

/-- What a token, a piece or a term does to the number of open parentheses. -/
inductive Bracket
  | opening
  | closing
  | other
  deriving DecidableEq, Repr

namespace Bracket

/-- The number of open parentheses, unless one is closed that is not open. -/
def step (depth : Nat) : Bracket → Option Nat
  | opening => some (depth + 1)
  | closing =>
    match depth with
    | 0 => none
    | depth + 1 => some depth
  | other => some depth

/-- The number of parentheses that are open in the end. -/
def depth? (depth : Nat) (bs : List Bracket) : Option Nat := bs.foldlM step depth

/-- Every parenthesis is closed, and none that is not open. -/
def Balanced (bs : List Bracket) : Prop := depth? 0 bs = some 0

instance (bs : List Bracket) : Decidable (Balanced bs) :=
  inferInstanceAs (Decidable (depth? 0 bs = some 0))

theorem depth?_concat {depth n : Nat} {bs : List Bracket} {b : Bracket} :
    depth? depth (bs ++ [b]) = some n ↔ ∃ m, depth? depth bs = some m ∧ step m b = some n := by
  simp only [depth?, List.foldlM_append, List.foldlM_cons, List.foldlM_nil, Option.bind_eq_bind,
    Option.pure_def, Option.bind_eq_some_iff, Option.bind_fun_some]

theorem depth?_append {depth m : Nat} {bs cs : List Bracket} (h : depth? depth bs = some m) :
    depth? depth (bs ++ cs) = depth? m cs := by
  rw [depth?, List.foldlM_append]
  change (depth? depth bs >>= fun n => depth? n cs) = _
  rw [h]
  rfl

end Bracket

def Token.bracket : Token → Bracket
  | leftParen => .opening
  | rightParen => .closing
  | _ => .other

def Expr.Piece.bracket : Expr.Piece → Bracket
  | leftParen => .opening
  | rightParen => .closing
  | operand _ | operator _ => .other

def Term.bracket : Term → Bracket
  | leftParen => .opening
  | rightParen => .closing
  | operand _ | operator _ => .other

namespace Expr

mutual

/-- The terms of a derivation close all parentheses that they open. -/
theorem SumTree.depth?_terms (e : SumTree) (depth : Nat) :
    Bracket.depth? depth (e.terms.map Term.bracket) = some depth := by
  cases e with
  | product p => exact p.depth?_terms depth
  | join left sign right =>
    rw [SumTree.terms, List.map_append, Bracket.depth?_append (left.depth?_terms depth)]
    exact right.depth?_terms depth

theorem ProductTree.depth?_terms (p : ProductTree) (depth : Nat) :
    Bracket.depth? depth (p.terms.map Term.bracket) = some depth := by
  cases p with
  | factor f => exact f.depth?_terms depth
  | join left sign right =>
    rw [ProductTree.terms, List.map_append, Bracket.depth?_append (left.depth?_terms depth)]
    exact right.depth?_terms depth

theorem FactorTree.depth?_terms (f : FactorTree) (depth : Nat) :
    Bracket.depth? depth (f.terms.map Term.bracket) = some depth := by
  cases f with
  | operand n type => rfl
  | parens e =>
    show Bracket.depth? (depth + 1) ((e.terms ++ [Term.rightParen]).map Term.bracket) = some depth
    rw [List.map_append, Bracket.depth?_append (e.depth?_terms (depth + 1))]
    rfl
  | signed sign f => exact f.depth?_terms depth

end

/-- Terms that make an operand are a lone text or the terms of a derivation with its value. -/
theorem derivation_of_reduce {terms : List Term} {o : Operand} (h : reduce terms = .ok o) :
    (∃ s type, o = ⟨.text s, type⟩ ∧ terms = [.operand o]) ∨
      ∃ n type, o = ⟨.int n, type⟩ ∧ ∃ e : SumTree, e.terms = terms ∧ e.Exact ∧
        e.value = n.toInt := by
  by_cases hlone : ∃ o, terms = [.operand o]
  · obtain ⟨⟨value, type⟩, rfl⟩ := hlone
    cases h
    cases value with
    | text s => exact .inl ⟨s, type, rfl, rfl⟩
    | int n => exact .inr ⟨n, type, rfl, .product (.factor (.operand n type)), rfl, trivial, rfl⟩
  · rcases reduce_cases (not_exists.1 hlone) with
      ⟨e, n, type, hn, hterms, hexact, hvalue⟩ | ⟨⟨failure, hfail⟩, -⟩
    · rw [hn] at h
      cases h
      exact .inr ⟨n, type, rfl, e, hterms, hexact, hvalue⟩
    · rw [hfail] at h
      cases h

theorem reduce_balanced {terms : List Term} {o : Operand} (h : reduce terms = .ok o) :
    Bracket.Balanced (terms.map Term.bracket) := by
  rcases derivation_of_reduce h with ⟨s, type, -, rfl⟩ | ⟨n, type, -, e, rfl, -⟩
  · rfl
  · exact e.depth?_terms 0

theorem piece_of_resolvePiece [TypeCatalog] {L : Lookups} {piece : Piece} {term : Term}
    (h : resolvePiece L piece = .ok term) :
    match term with
    | .operand o => ∃ text, piece = .operand text ∧ resolveText L text = .ok o
    | .operator sign => piece = .operator sign
    | .leftParen => piece = .leftParen
    | .rightParen => piece = .rightParen := by
  cases piece with
  | operand text =>
    change (do .ok (.operand (← resolveText L text)) : Except EvalError Term) = .ok term at h
    cases hr : resolveText L text with
    | error e => rw [hr] at h; cases h
    | ok o => rw [hr] at h; cases h; exact ⟨text, rfl, hr⟩
  | operator | leftParen | rightParen => cases h; rfl

theorem bracket_of_resolvePiece [TypeCatalog] {L : Lookups} {piece : Piece} {term : Term}
    (h : resolvePiece L piece = .ok term) : term.bracket = piece.bracket := by
  have hpiece := piece_of_resolvePiece h
  cases term with
  | operand o =>
    obtain ⟨text, rfl, -⟩ := hpiece
    rfl
  | operator | leftParen | rightParen =>
    rw [hpiece]
    rfl

theorem forall₂_of_mapM {ε α β : Type} {f : α → Except ε β} {l : List α} {bs : List β}
    (h : l.mapM f = .ok bs) : List.Forall₂ (fun a b => f a = .ok b) l bs := by
  induction l generalizing bs with
  | nil => cases h; exact .nil
  | cons a l ih =>
    rw [List.mapM_cons] at h
    cases hb : f a with
    | error e => rw [hb] at h; cases h
    | ok b =>
      cases hbs : l.mapM f with
      | error e => rw [hb, hbs] at h; cases h
      | ok bs' => rw [hb, hbs] at h; cases h; exact .cons hb (ih hbs)

/-- The terms are what the pieces stand for. -/
def Resolves [TypeCatalog] (L : Lookups) : List Piece → List Term → Prop :=
  List.Forall₂ fun piece term => resolvePiece L piece = .ok term

theorem Resolves.brackets [TypeCatalog] {L : Lookups} {ps : List Piece} {terms : List Term}
    (h : Resolves L ps terms) : terms.map Term.bracket = ps.map Piece.bracket := by
  induction h with
  | nil => rfl
  | cons hone _ ih => rw [List.map_cons, List.map_cons, bracket_of_resolvePiece hone, ih]

theorem exists_terms_of_evaluate [TypeCatalog] {L : Lookups} {text : String} {o : Operand}
    (h : evaluate L text = .ok o) :
    ∃ ps terms, split text.toList = some ps ∧ ps.mapM (resolvePiece L) = .ok terms ∧
      reduce terms = .ok o := by
  cases hsplit : split (Text.strip text.toList) with
  | none => rw [evaluate_of_split_none hsplit] at h; cases h
  | some ps =>
    rw [evaluate_of_split hsplit] at h
    rw [split_strip] at hsplit
    cases hterms : ps.mapM (resolvePiece L) with
    | error e => rw [hterms] at h; cases h
    | ok terms =>
      rw [hterms] at h
      change reduceTerms terms = .ok o at h
      unfold reduceTerms at h
      cases hreduce : reduce terms with
      | error failure => rw [hreduce] at h; cases h
      | ok o' =>
        rw [hreduce] at h
        cases h
        exact ⟨ps, terms, hsplit, hterms, hreduce⟩

/-- An operand with a value is split into pieces whose terms reduce to it. -/
theorem evaluate_eq_ok [TypeCatalog] {L : Lookups} {text : String} {o : Operand}
    (h : evaluate L text = .ok o) :
    ∃ ps terms, split text.toList = some ps ∧ ps.mapM (resolvePiece L) = .ok terms ∧
      Resolves L ps terms ∧ reduce terms = .ok o := by
  obtain ⟨ps, terms, hsplit, hterms, hreduce⟩ := exists_terms_of_evaluate h
  exact ⟨ps, terms, hsplit, hterms, forall₂_of_mapM hterms, hreduce⟩

end Expr

namespace Token

open AsmLayout.Expr

theorem Agrees.bracket {token : Token} {piece : Piece} (h : Agrees token piece) :
    token.bracket = piece.bracket := by
  cases h <;> rfl

theorem brackets_of_agrees {tokens : List Token} {ps : List Piece}
    (h : List.Forall₂ Agrees tokens ps) : tokens.map Token.bracket = ps.map Piece.bracket := by
  induction h with
  | nil => rfl
  | cons hone _ ih => rw [List.map_cons, List.map_cons, hone.bracket, ih]

/-- The token as it is read where no registers are known. -/
def unregister : Token → Token
  | register name _ => symbol name
  | token => token

variable {registers : String → Option UInt8} {tokens before : List Token} {token : Token}
  {text spelling : List Char}

theorem bracket_unregister (token : Token) : token.unregister.bracket = token.bracket := by
  cases token <;> rfl

theorem counterFits_unregister : CounterFits (before.map unregister) ↔ CounterFits before := by
  unfold CounterFits
  rw [List.getLast?_map]
  cases before.getLast? with
  | none => simp
  | some last => cases last <;> simp [unregister]

theorem needsGap_unregister :
    NeedsGap (before.map unregister) token.unregister ↔ NeedsGap before token := by
  have hrun : token.unregister.isRun = token.isRun := by cases token <;> rfl
  unfold NeedsGap
  rw [List.getLast?_map, hrun]
  cases before.getLast? with
  | none => simp
  | some last => cases last <;> simp [unregister, isOperand]

theorem Spells.unregister (h : Spells registers before token spelling) :
    Spells (fun _ => none) (before.map unregister) token.unregister spelling := by
  cases h with
  | decimal hne hdigits hvalue => exact .decimal hne hdigits hvalue
  | register hname _ => exact .symbol hname rfl
  | symbol hname _ => exact .symbol hname rfl
  | lengthOf hc hne hfield => exact .lengthOf hc hne hfield
  | literal hname hcode => exact .literal hname hcode
  | leftParen => exact .leftParen
  | rightParen => exact .rightParen
  | comma => exact .comma
  | sign hc => exact .sign hc
  | counter hfits => exact .counter (counterFits_unregister.2 hfits)
  | times hfits => exact .times (counterFits_unregister.not.2 hfits)

theorem Written.unregister (h : Written registers tokens text) :
    Written (fun _ => none) (tokens.map unregister) text := by
  induction h with
  | nil => exact .nil
  | concat _ hgap hneeds hspells ih =>
    rw [List.map_append]
    exact .concat ih hgap (fun h => hneeds (needsGap_unregister.1 h)) hspells.unregister

/-- An operand that divides into tokens does so whatever registers are known. -/
theorem scan_unregister {operand : String} (h : scan registers operand = .ok tokens) :
    scan (fun _ => none) operand = .ok (tokens.map Token.unregister) := by
  obtain ⟨text, gap, hoperand, hgap, hwritten⟩ := written_of_scan h
  exact hwritten.unregister.scan hgap hoperand

/-- Where no comma stands, the parentheses of an operand with a value are all closed. -/
theorem balanced_of_evaluate [TypeCatalog] {L : Lookups} {operand : String} {o : Operand}
    (hscan : scan registers operand = .ok tokens) (hcomma : Token.comma ∉ tokens)
    (h : evaluate L operand = .ok o) : Bracket.Balanced (tokens.map Token.bracket) := by
  have hplain : ∀ token ∈ tokens.map Token.unregister, token.isPlain = true := by
    intro token htoken
    obtain ⟨token, hmem, rfl⟩ := List.mem_map.1 htoken
    cases token with
    | comma => exact absurd hmem hcomma
    | _ => rfl
  -- without registers, the tokens agree with the pieces that the text is split into
  obtain ⟨ps, hsplit, hagree⟩ := exists_split_of_scan (scan_unregister hscan) hplain
  obtain ⟨ps', terms, hsplit', -, hresolves, hreduce⟩ := evaluate_eq_ok h
  obtain rfl : ps = ps' := Option.some.inj (hsplit.symm.trans hsplit')
  have hbrackets : (tokens.map Token.unregister).map Token.bracket = tokens.map Token.bracket := by
    rw [List.map_map]
    exact List.map_congr_left fun token _ => bracket_unregister token
  rw [← hbrackets, brackets_of_agrees hagree, ← hresolves.brackets]
  exact reduce_balanced hreduce

end Token

namespace Expr

/-! ### An operand in parentheses -/

namespace Splitter

variable {pieces : List Piece} {current : List Char}

/-- The state behind a parenthesis that was opened at the beginning. -/
def behindParen (σ : Splitter) : Splitter := ⟨.leftParen :: σ.pieces, σ.current, σ.quoting⟩

theorem flushed_behindParen :
    flushed (.leftParen :: pieces) current = .leftParen :: flushed pieces current := by
  unfold flushed
  split <;> rfl

theorem operandMayBegin_behindParen :
    operandMayBegin (.leftParen :: pieces) = operandMayBegin pieces := by
  unfold operandMayBegin
  cases pieces with
  | nil => rfl
  | cons piece ps => rw [List.getLast?_cons_cons]

theorem stepOutside_behindParen (c : Char) :
    stepOutside (.leftParen :: pieces) current c = (stepOutside pieces current c).behindParen := by
  unfold stepOutside
  rw [flushed_behindParen, operandMayBegin_behindParen]
  split
  · rfl
  split
  · rfl
  split
  · rfl
  split
  · rfl
  split
  · rfl
  split <;> rfl

theorem step_behindParen (σ : Splitter) (c : Char) :
    σ.behindParen.step c = (σ.step c).behindParen := by
  obtain ⟨pieces, current, quoting⟩ := σ
  cases quoting with
  | outside => exact stepOutside_behindParen c
  | inside => rfl
  | apostrophe =>
    show (if c == '\'' then _ else stepOutside (.leftParen :: pieces) current c) = _
    rw [stepOutside_behindParen]
    unfold Splitter.step
    dsimp only
    split <;> rfl

theorem foldl_behindParen (σ : Splitter) (cs : List Char) :
    cs.foldl Splitter.step σ.behindParen = (cs.foldl Splitter.step σ).behindParen := by
  induction cs generalizing σ with
  | nil => rfl
  | cons c cs ih => rw [List.foldl_cons, List.foldl_cons, step_behindParen, ih]

end Splitter

theorem split_parens {cs : List Char} {ps : List Piece} (h : split cs = some ps) :
    split ('(' :: (cs ++ [')'])) = some (.leftParen :: (ps ++ [.rightParen])) := by
  have hopen : Splitter.step Splitter.start '(' = Splitter.start.behindParen := rfl
  unfold split at h ⊢
  rw [List.foldl_cons, hopen, List.foldl_append, Splitter.foldl_behindParen]
  generalize cs.foldl Splitter.step Splitter.start = σ at h
  obtain ⟨pieces, current, quoting⟩ := σ
  -- the closing parenthesis ends the last operand
  have hclose : Splitter.stepOutside (.leftParen :: pieces) current ')' =
      ⟨Splitter.flushed (.leftParen :: pieces) current ++ [.rightParen], [], .outside⟩ := rfl
  rw [Splitter.flushed_behindParen] at hclose
  cases quoting with
  | inside => cases h
  | outside | apostrophe =>
    cases h
    show some (Splitter.flushed (Splitter.stepOutside (.leftParen :: pieces) current ')').pieces
      (Splitter.stepOutside (.leftParen :: pieces) current ')').current) = _
    rw [hclose]
    rfl

theorem mapM_parens [TypeCatalog] (L : Lookups) (ps : List Piece) :
    (.leftParen :: (ps ++ [.rightParen])).mapM (resolvePiece L) =
      (ps.mapM (resolvePiece L)).map fun terms => .leftParen :: (terms ++ [.rightParen]) := by
  rw [List.mapM_cons, List.mapM_append]
  cases ps.mapM (resolvePiece L) <;> rfl

theorem reduce_parens {terms : List Term} {n : Int64} {type : Option TypeCode}
    (h : reduce terms = .ok ⟨.int n, type⟩) :
    ∃ type', reduce (.leftParen :: (terms ++ [.rightParen])) = .ok ⟨.int n, type'⟩ := by
  rcases derivation_of_reduce h with ⟨s, type, ⟨⟩, -⟩ | ⟨m, type, ⟨⟩, e, rfl, hexact, hvalue⟩
  -- parentheses around a derivation are as exact as it is
  rcases reduce_derivation (.product (.factor (.parens e))) with
    ⟨-, m, type', hm, hsame⟩ | ⟨hno, -⟩
  · have hnm : m = n := Int64.toInt_inj.1 (hsame.trans hvalue)
    rw [hnm] at hm
    exact ⟨type', hm⟩
  · exact absurd hexact hno

variable {L : Lookups} {text : String}

/-- Parentheses around an operand change neither its number nor the name in it that is not
defined. -/
theorem evaluate_parens [TypeCatalog] :
    (∀ n type, evaluate L text = .ok ⟨.int n, type⟩ →
      ∃ type', evaluate L (String.ofList ('(' :: (text.toList ++ [')']))) = .ok ⟨.int n, type'⟩) ∧
    ∀ e, evaluate L text = .error e → e.isForwardReference = true →
      evaluate L (String.ofList ('(' :: (text.toList ++ [')']))) = .error e := by
  have hparens : ∀ {ps}, split text.toList = some ps →
      evaluate L (String.ofList ('(' :: (text.toList ++ [')']))) =
        (ps.mapM (resolvePiece L)).map (fun terms => .leftParen :: (terms ++ [.rightParen])) >>=
          reduceTerms := by
    intro ps hsplit
    have hstrip : split (Text.strip (String.ofList ('(' :: (text.toList ++ [')']))).toList) =
        some (.leftParen :: (ps ++ [.rightParen])) := by
      rw [split_strip, String.toList_ofList, split_parens hsplit]
    rw [evaluate_of_split hstrip, mapM_parens]
  refine ⟨fun n type h => ?_, fun e h he => ?_⟩
  · obtain ⟨ps, terms, hsplit, hterms, -, hreduce⟩ := evaluate_eq_ok h
    obtain ⟨type', hwrapped⟩ := reduce_parens hreduce
    refine ⟨type', ?_⟩
    rw [hparens hsplit, hterms]
    show reduceTerms (.leftParen :: (terms ++ [.rightParen])) = _
    rw [reduceTerms, hwrapped]
    rfl
  · cases hsplit : split (Text.strip text.toList) with
    | none => rw [evaluate_of_split_none hsplit] at h; cases h; cases he
    | some ps =>
      rw [evaluate_of_split hsplit] at h
      rw [split_strip] at hsplit
      rw [hparens hsplit]
      cases hterms : ps.mapM (resolvePiece L) with
      | error e' => rw [hterms] at h; cases h; rfl
      | ok terms =>
        -- terms that are all resolved fail for another reason
        rw [hterms] at h
        change reduceTerms terms = .error e at h
        unfold reduceTerms at h
        cases hreduce : reduce terms with
        | error failure => rw [hreduce] at h; cases h; cases he
        | ok o => rw [hreduce] at h; cases h

end Expr
end AsmLayout
