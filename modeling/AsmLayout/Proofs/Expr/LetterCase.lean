import AsmLayout.Proofs.Expr.EntryPoints
import AsmLayout.Proofs.Expr.Reduction

/-!
# Letter case in operands

Where names are looked up without regard to the case of ASCII letters, an operand has the same
number and type in either case, or fails in the same way. Main statement:
`Expr.evaluate_sameAsciiLetters`.
-/

namespace AsmLayout

section Alike

variable {ε ε' α β γ δ : Type} {kind : ε → ErrorKind} {kind' : ε' → ErrorKind} {R : α → α → Prop}
  {S : β → β → Prop}

/-- Values that are alike, or errors of one kind. -/
inductive Alike (kind : ε → ErrorKind) (R : α → α → Prop) : Except ε α → Except ε α → Prop
  | ok {a b : α} (h : R a b) : Alike kind R (.ok a) (.ok b)
  | error {e e' : ε} (h : kind e = kind e') : Alike kind R (.error e) (.error e')

namespace Alike

variable {r r' r'' : Except ε α}

theorem refl (hR : ∀ a, R a a) (r : Except ε α) : Alike kind R r r := by
  cases r with
  | ok a => exact .ok (hR a)
  | error e => exact .error rfl

theorem symm (hR : ∀ a b, R a b → R b a) (h : Alike kind R r r') : Alike kind R r' r := by
  cases h with
  | ok h => exact .ok (hR _ _ h)
  | error h => exact .error h.symm

theorem trans (hR : ∀ a b c, R a b → R b c → R a c) (h : Alike kind R r r')
    (h' : Alike kind R r' r'') : Alike kind R r r'' := by
  cases h with
  | ok h => cases h' with | ok h' => exact .ok (hR _ _ _ h h')
  | error h => cases h' with | error h' => exact .error (h.trans h')

theorem bind {f f' : α → Except ε β} (h : Alike kind R r r')
    (hf : ∀ a b, R a b → Alike kind S (f a) (f' b)) : Alike kind S (r >>= f) (r' >>= f') := by
  cases h with
  | ok h => exact hf _ _ h
  | error h => exact .error h

theorem mapError (g : ε → ε') (h : Alike kind R r r')
    (hg : ∀ e e', kind e = kind e' → kind' (g e) = kind' (g e')) :
    Alike kind' R (r.mapError g) (r'.mapError g) := by
  cases h with
  | ok h => exact .ok h
  | error h => exact .error (hg _ _ h)

theorem mapError_right {g : ε → ε} (h : Alike kind R r r') (hg : ∀ e, kind (g e) = kind e) :
    Alike kind R r (r'.mapError g) := by
  cases h with
  | ok h => exact .ok h
  | error h => exact .error (h.trans (hg _).symm)

theorem mapM {f : γ → Except ε β} {g : γ → γ} {l : List γ}
    (h : ∀ x, Alike kind S (f x) (f (g x))) :
    Alike kind (List.Forall₂ S) (l.mapM f) ((l.map g).mapM f) := by
  induction l with
  | nil => exact .ok .nil
  | cons x l ih =>
    rw [List.map_cons, List.mapM_cons, List.mapM_cons]
    exact (h x).bind fun a b hab => ih.bind fun as bs habs => .ok (.cons hab habs)

end Alike
end Alike

/-- Names are looked up without regard to the case of ASCII letters. -/
structure Symbols.IgnoresCase (σ : Symbols) : Prop where
  displacement : ∀ name, σ.displacement (Text.upperAscii name) = σ.displacement name
  length : ∀ name, σ.length (Text.upperAscii name) = σ.length name

/-- The same type and the same number, or two texts. -/
structure Operand.Alike (o o' : Operand) : Prop where
  int? : o.value.int? = o'.value.int?
  type : o.type = o'.type

theorem Operand.Alike.refl (o : Operand) : o.Alike o := ⟨rfl, rfl⟩

theorem Operand.Alike.cases {o o' : Operand} (h : o.Alike o') :
    o = o' ∨ ∃ t t' type, o = ⟨.text t, type⟩ ∧ o' = ⟨.text t', type⟩ := by
  obtain ⟨value, type⟩ := o
  obtain ⟨value', type'⟩ := o'
  obtain ⟨hvalue, htype⟩ := h
  dsimp only at hvalue htype
  subst htype
  cases value with
  | int n =>
    cases value' with
    | int n' => exact .inl (by rw [Option.some.inj hvalue])
    | text t' => cases hvalue
  | text t =>
    cases value' with
    | int n' => cases hvalue
    | text t' => exact .inr ⟨t, t', type, rfl, rfl⟩

/-- Equal terms, or operands that are alike. -/
inductive Term.Alike : Term → Term → Prop
  | same (t : Term) : Alike t t
  | operand {o o' : Operand} (h : o.Alike o') : Alike (.operand o) (.operand o')

namespace Expr

/-! ### Splitting -/

/-- The piece with its letters in upper case. -/
def Piece.toUpper : Piece → Piece
  | .operand text => .operand (text.map Char.toUpper)
  | .operator sign => .operator sign
  | .leftParen => .leftParen
  | .rightParen => .rightParen

namespace Splitter

variable {pieces : List Piece} {current : List Char}

def toUpper (σ : Splitter) : Splitter :=
  ⟨σ.pieces.map Piece.toUpper, σ.current.map Char.toUpper, σ.quoting⟩

theorem flushed_toUpper : flushed (pieces.map Piece.toUpper) (current.map Char.toUpper) =
    (flushed pieces current).map Piece.toUpper := by
  cases current with
  | nil => rfl
  | cons c cs => simp [flushed, Piece.toUpper]

theorem operandMayBegin_toUpper :
    operandMayBegin (pieces.map Piece.toUpper) = operandMayBegin pieces := by
  unfold operandMayBegin
  rw [List.getLast?_map]
  cases pieces.getLast? with
  | none => rfl
  | some piece => cases piece <;> rfl

theorem stepOutside_toUpper (c : Char) :
    stepOutside (pieces.map Piece.toUpper) (current.map Char.toUpper) c.toUpper =
      (stepOutside pieces current c).toUpper := by
  -- letters are taken as they come, and all other characters are their own upper case
  by_cases hc : c.isAlpha = true
  · have hname : isNameChar c = true := by simp [isNameChar, Char.isAlphanum, hc]
    rw [stepOutside_of_isNameChar hname,
      stepOutside_of_isNameChar ((isNameChar_toUpper c).trans hname)]
    simp [toUpper]
  · have hsame : c.toUpper = c := Char.toUpper_eq_of_not_isLower fun hlower =>
      hc (by simp [Char.isAlpha, hlower])
    rw [hsame]
    unfold stepOutside
    rw [isLengthCode_toUpper, flushed_toUpper, List.isEmpty_map, operandMayBegin_toUpper]
    split
    · simp [toUpper, hsame]
    split
    · simp [toUpper, Piece.toUpper]
    split
    · simp [toUpper, Piece.toUpper]
    split
    · simp [toUpper, hsame]
    split
    · simp [toUpper, Piece.toUpper]
    split
    · rfl
    · simp [toUpper, hsame]

theorem step_toUpper (σ : Splitter) (c : Char) :
    σ.toUpper.step c.toUpper = (σ.step c).toUpper := by
  have hquote : (c.toUpper == '\'') = (c == '\'') := Text.toUpper_beq (by decide)
  obtain ⟨pieces, current, quoting⟩ := σ
  unfold Splitter.step
  cases quoting with
  | outside => exact stepOutside_toUpper c
  | inside => simp [toUpper, hquote]
  | apostrophe =>
    show (if _ then _ else _) = _
    rw [hquote]
    split
    · simp [toUpper]
    · exact stepOutside_toUpper c

theorem foldl_step_toUpper (σ : Splitter) (cs : List Char) :
    (cs.map Char.toUpper).foldl Splitter.step σ.toUpper =
      (cs.foldl Splitter.step σ).toUpper := by
  induction cs generalizing σ with
  | nil => rfl
  | cons c cs ih => rw [List.map_cons, List.foldl_cons, List.foldl_cons, step_toUpper, ih]

end Splitter

theorem split_toUpper (cs : List Char) :
    split (cs.map Char.toUpper) = (split cs).map (List.map Piece.toUpper) := by
  have hfold : (cs.map Char.toUpper).foldl Splitter.step .start =
      (cs.foldl Splitter.step .start).toUpper := Splitter.foldl_step_toUpper .start cs
  unfold split
  rw [hfold]
  generalize cs.foldl Splitter.step .start = σ
  obtain ⟨pieces, current, quoting⟩ := σ
  cases quoting with
  | inside => rfl
  | outside => exact congrArg some Splitter.flushed_toUpper
  | apostrophe => exact congrArg some Splitter.flushed_toUpper

variable {L : Lookups} {text field : List Char}

theorem symbolKey_toUpper (field : List Char) :
    symbolKey (field.map Char.toUpper) = Text.upperAscii (symbolKey field) := by
  rw [symbolKey, symbolKey, Text.upperAscii_ofList,
    Text.takeWhile_toUpper fun c => Text.toUpper_bne (by decide)]

theorem withoutClosing_toUpper (cs : List Char) :
    withoutClosing (cs.map Char.toUpper) = (withoutClosing cs).map Char.toUpper := by
  have hlast : (cs.map Char.toUpper).getLast? = some '\'' ↔ cs.getLast? = some '\'' := by
    rw [List.getLast?_map, Option.map_eq_some_iff]
    constructor
    · rintro ⟨c, hc, heq⟩
      rw [hc, (Text.toUpper_eq_iff (by decide)).1 heq]
    · exact fun h => ⟨_, h, rfl⟩
  unfold withoutClosing
  by_cases h : cs.getLast? = some '\''
  · rw [if_pos h, if_pos (hlast.2 h), List.map_dropLast]
  · rw [if_neg h, if_neg (hlast.not.2 h)]

theorem selfDefining_toUpper (type : TypeCode) (field : List Char) :
    Alike EvalError.kind (fun v v' : Value => v.int? = v'.int?) (selfDefining type field)
      (selfDefining type (field.map Char.toUpper)) := by
  unfold selfDefining
  rw [Text.hexadecimal?_toUpper, Text.signedDecimal?_toUpper]
  cases type with
  | c => exact .ok rfl
  | x =>
    dsimp only
    split
    · exact .ok rfl
    · exact .error rfl
  | _ =>
    dsimp only
    split
    · exact .ok rfl
    · exact .error rfl

theorem resolveField_toUpper (hL : L.symbols.IgnoresCase) (code : String) (field : List Char) :
    Alike EvalError.kind Operand.Alike (resolveField L code field)
      (resolveField L code (field.map Char.toUpper)) := by
  unfold resolveField
  rw [symbolKey_toUpper, hL.displacement, hL.length]
  split
  · split
    · exact .ok (.refl _)
    · exact .error rfl
  split
  · split
    · exact .ok (.refl _)
    · exact .error rfl
  split
  · exact (selfDefining_toUpper _ field).bind fun v v' hv => .ok ⟨hv, rfl⟩
  · exact .error rfl

theorem kind_upperCode (e : EvalError) : e.upperCode.kind = e.kind := by cases e <;> rfl

/-- A code and a field in upper case. -/
theorem resolveField_code_toUpper (hL : L.symbols.IgnoresCase) (code field : List Char) :
    Alike EvalError.kind Operand.Alike (resolveField L (String.ofList code) field)
      (resolveField L (String.ofList (code.map Char.toUpper)) (field.map Char.toUpper)) := by
  rw [Token.resolveField_upper]
  exact (resolveField_toUpper hL (String.ofList code) field).mapError_right kind_upperCode

theorem resolveText_toUpper (hL : L.symbols.IgnoresCase) (text : List Char) :
    Alike EvalError.kind Operand.Alike (resolveText L text)
      (resolveText L (text.map Char.toUpper)) := by
  have hquote : ∀ c : Char, (c.toUpper != '\'') = (c != '\'') := fun c =>
    Text.toUpper_bne (by decide)
  have hstar : text.map Char.toUpper = ['*'] ↔ text = ['*'] := by
    rw [List.map_eq_singleton_iff]
    constructor
    · rintro ⟨c, rfl, hc⟩
      rw [(Text.toUpper_eq_iff (by decide)).1 hc]
    · rintro rfl
      exact ⟨'*', rfl, rfl⟩
  unfold resolveText
  rw [Text.decimal?_toUpper, Text.dropWhile_toUpper hquote, Text.takeWhile_toUpper hquote]
  cases Text.decimal? text with
  | some n =>
    dsimp only
    cases int64? n with
    | some n => exact .ok (.refl _)
    | none => exact .error rfl
  | none =>
    dsimp only
    by_cases htext : text = ['*']
    · rw [if_pos htext, if_pos (hstar.2 htext)]
      exact .ok (.refl _)
    rw [if_neg htext, if_neg (hstar.not.2 htext)]
    cases text.dropWhile (· != '\'') with
    | nil => exact resolveField_toUpper hL "" text
    | cons c rest =>
      rw [List.map_cons]
      dsimp only
      rw [withoutClosing_toUpper, Text.undoubled_toUpper]
      exact resolveField_code_toUpper hL _ _

theorem resolvePiece_toUpper (hL : L.symbols.IgnoresCase) (piece : Piece) :
    Alike EvalError.kind Term.Alike (resolvePiece L piece) (resolvePiece L piece.toUpper) := by
  cases piece with
  | operand text => exact (resolveText_toUpper hL text).bind fun o o' ho => .ok (.operand ho)
  | operator sign => exact .ok (.same _)
  | leftParen => exact .ok (.same _)
  | rightParen => exact .ok (.same _)

/-- All failures of a reduction are of one kind. -/
def failureKind (_ : Failure) : ErrorKind := .evaluationFailed

theorem step_alike (s : Reduction) {t t' : Term} (h : t.Alike t') :
    Alike failureKind Eq (s.step t) (s.step t') := by
  cases h with
  | same => exact .refl Eq.refl _
  | operand h =>
    rcases h.cases with rfl | ⟨t, t', type, rfl, rfl⟩
    · exact .refl Eq.refl _
    -- no text is ever taken
    obtain ⟨outer, phase, last, index⟩ := s
    cases phase with
    | factor level => exact .error rfl
    | product sum total =>
      show Alike failureKind Eq (Reduction.added sum total >>= _) (Reduction.added sum total >>= _)
      refine Alike.bind (.refl Eq.refl _) ?_
      rintro w _ rfl
      cases outer with
      | nil => exact .error rfl
      | cons level outer => exact .error rfl

theorem foldlM_step_alike (s : Reduction) {terms terms' : List Term}
    (h : List.Forall₂ Term.Alike terms terms') :
    Alike failureKind Eq (terms.foldlM Reduction.step s) (terms'.foldlM Reduction.step s) := by
  induction h generalizing s with
  | nil => exact .refl Eq.refl _
  | cons h _ ih =>
    rw [List.foldlM_cons, List.foldlM_cons]
    refine (step_alike s h).bind ?_
    rintro s' _ rfl
    exact ih s'

theorem reduce_alike {terms terms' : List Term} (h : List.Forall₂ Term.Alike terms terms') :
    Alike failureKind Operand.Alike (reduce terms) (reduce terms') := by
  by_cases hne : terms = []
  · subst hne
    cases h
    exact .error rfl
  by_cases hlone : ∃ o, terms = [.operand o]
  · obtain ⟨o, rfl⟩ := hlone
    cases h with
    | cons h htail =>
      cases htail
      cases h with
      | same => exact .ok (.refl o)
      | operand h => exact .ok h
  · have hne' : terms' ≠ [] := by
      rintro rfl
      cases h
      exact hne rfl
    have hlone' : ∀ o, terms' ≠ [.operand o] := by
      rintro o rfl
      cases h with
      | cons h htail =>
        cases htail
        cases h with
        | same => exact hlone ⟨o, rfl⟩
        | operand h => exact hlone ⟨_, rfl⟩
    rw [reduce_eq_finish hne (not_exists.1 hlone), reduce_eq_finish hne' hlone']
    refine (foldlM_step_alike .start h).bind ?_
    rintro s _ rfl
    exact .refl .refl _

theorem evaluate_toUpper (hL : L.symbols.IgnoresCase) (text : String) :
    Alike EvalError.kind Operand.Alike (evaluate L text) (evaluate L (Text.upperAscii text)) := by
  have hupper : split (Text.strip (Text.upperAscii text).toList) =
      (split (Text.strip text.toList)).map (List.map Piece.toUpper) := by
    rw [Text.upperAscii, String.toList_ofList, Text.strip_toUpper, split_toUpper]
  cases hsplit : split (Text.strip text.toList) with
  | none =>
    rw [hsplit, Option.map_none] at hupper
    rw [evaluate_of_split_none hsplit, evaluate_of_split_none hupper]
    exact .error (Eq.refl ErrorKind.evaluationFailed)
  | some ps =>
    rw [hsplit, Option.map_some] at hupper
    rw [evaluate_of_split hsplit, evaluate_of_split hupper]
    refine (Alike.mapM (resolvePiece_toUpper hL)).bind fun terms terms' hterms => ?_
    exact (reduce_alike hterms).mapError _ fun _ _ _ => rfl

/-- Operands that differ in the case of ASCII letters have the same number and type, or fail in the
same way. -/
theorem evaluate_sameAsciiLetters {text text' : String} (hL : L.symbols.IgnoresCase)
    (h : Text.upperAscii text = Text.upperAscii text') :
    Alike EvalError.kind Operand.Alike (evaluate L text) (evaluate L text') := by
  have hsymm : ∀ o o' : Operand, o.Alike o' → o'.Alike o := fun _ _ h => ⟨h.int?.symm, h.type.symm⟩
  have htrans : ∀ o o' o'' : Operand, o.Alike o' → o'.Alike o'' → o.Alike o'' :=
    fun _ _ _ h h' => ⟨h.int?.trans h'.int?, h.type.trans h'.type⟩
  have hupper := evaluate_toUpper hL text
  rw [h] at hupper
  exact hupper.trans htrans ((evaluate_toUpper hL text').symm hsymm)

end Expr
end AsmLayout
