import AsmLayout.Expr
import AsmLayout.Proofs.SymbolTable

/-!
# What an evaluation reads

`Expr.references` lists the names that an expression may look up, and `Expr.UsesCounter` says whether
the counter stands in it. Main statements: `Expr.evaluate_congr` (the value depends on nothing else)
and `Expr.evaluate_extends` (new symbols change no outcome but an undefined name). Both are cases of
`Expr.evaluate_agreeUnless`.
-/

namespace AsmLayout

section AgreeUnless

variable {ε ε' α β : Type} {P : ε → Prop} {r r' : Except ε α}

/-- The second result is the first, unless that is an error in `P`. -/
def AgreeUnless (P : ε → Prop) (r r' : Except ε α) : Prop := r' = r ∨ ∃ e, r = .error e ∧ P e

theorem AgreeUnless.refl (r : Except ε α) : AgreeUnless P r r := .inl rfl

theorem AgreeUnless.ok {a : α} (h : AgreeUnless P r r') (hr : r = .ok a) : r' = .ok a := by
  rcases h with h | ⟨e, he, -⟩
  · rw [h, hr]
  · rw [hr] at he; cases he

theorem AgreeUnless.eq (h : AgreeUnless (fun _ => False) r r') : r' = r :=
  h.resolve_right fun ⟨_, _, he⟩ => he

theorem AgreeUnless.bind {f f' : α → Except ε β} (h : AgreeUnless P r r')
    (hf : ∀ a, r = .ok a → AgreeUnless P (f a) (f' a)) : AgreeUnless P (r >>= f) (r' >>= f') := by
  rcases h with rfl | ⟨e, rfl, he⟩
  · cases r' with
    | error e => exact .refl _
    | ok a => exact hf a rfl
  · exact .inr ⟨e, rfl, he⟩

theorem AgreeUnless.mapError {Q : ε' → Prop} (g : ε → ε') (h : AgreeUnless P r r')
    (hg : ∀ e, P e → Q (g e)) : AgreeUnless Q (r.mapError g) (r'.mapError g) := by
  rcases h with rfl | ⟨e, rfl, he⟩
  · exact .refl _
  · exact .inr ⟨g e, rfl, hg e he⟩

theorem AgreeUnless.mapM {f f' : α → Except ε β} {l : List α}
    (h : ∀ a ∈ l, AgreeUnless P (f a) (f' a)) : AgreeUnless P (l.mapM f) (l.mapM f') := by
  induction l with
  | nil => exact .refl _
  | cons a l ih =>
    rw [List.mapM_cons, List.mapM_cons]
    exact (h a (by simp)).bind fun b _ =>
      (ih fun x hx => h x (by simp [hx])).bind fun _ _ => .refl _

end AgreeUnless

/-- Two sources of symbols give a name the same values, unless the first has none and that error
is in `P`. -/
structure Symbols.AgreeUnless (P : EvalError → Prop) (σ σ' : Symbols) (name : String) : Prop where
  displacement : σ'.displacement name = σ.displacement name ∨
    σ.displacement name = none ∧ P (.invalidSymbolKey name)
  length : σ'.length name = σ.length name ∨ σ.length name = none ∧ P (.invalidLengthKey name)

/-- The error is a name that is not defined. -/
def EvalError.IsUndefined (e : EvalError) : Prop := e.isForwardReference = true

theorem Symbols.Extends.agreeUnless {σ σ' : Symbols} (h : σ'.Extends σ) (name : String) :
    σ.AgreeUnless EvalError.IsUndefined σ' name := by
  constructor
  · cases hn : σ.displacement name with
    | none => exact .inr ⟨rfl, rfl⟩
    | some n => exact .inl (h.displacement name n hn)
  · cases hn : σ.length name with
    | none => exact .inr ⟨rfl, rfl⟩
    | some n => exact .inl (h.length name n hn)

namespace Expr

/-- The name that a field refers to, if its type code makes it refer to one. -/
def fieldReference? (code : String) (field : List Char) : Option String :=
  if code.isEmpty || isLengthCode code then some (symbolKey field) else none

/-- The name that an operand text refers to. -/
def textReference? (text : List Char) : Option String :=
  if (Text.decimal? text).isSome || text = ['*'] then none
  else match text.dropWhile (· != '\'') with
    | [] => fieldReference? "" text
    | _ :: rest =>
      fieldReference? (String.ofList (text.takeWhile (· != '\'')))
        (Text.undoubled (withoutClosing rest))

def pieceReference? : Piece → Option String
  | .operand text => textReference? text
  | .operator _ | .leftParen | .rightParen => none

/-- The pieces of an expression; none where a quoted payload is left open. -/
def pieces (text : String) : List Piece := (split (Text.strip text.toList)).getD []

/-- The names that an expression refers to. -/
def references (text : String) : List String := (pieces text).filterMap pieceReference?

/-- Whether the location counter stands in an expression. -/
def UsesCounter (text : String) : Prop := Piece.operand ['*'] ∈ pieces text

instance (text : String) : Decidable (UsesCounter text) :=
  inferInstanceAs (Decidable (_ ∈ pieces text))

variable [TypeCatalog] {P : EvalError → Prop} {L L' : Lookups}

theorem resolveField_agreeUnless {code : String} {field : List Char}
    (h : ∀ name ∈ fieldReference? code field, L.symbols.AgreeUnless P L'.symbols name) :
    AgreeUnless P (resolveField L code field) (resolveField L' code field) := by
  unfold resolveField
  by_cases hcode : code.isEmpty = true
  · have hname := h (symbolKey field) (by simp [fieldReference?, hcode])
    rw [if_pos hcode, if_pos hcode]
    rcases hname.displacement with heq | ⟨hnone, hP⟩
    · rw [heq]; exact .refl _
    · rw [hnone]; exact .inr ⟨_, rfl, hP⟩
  rw [if_neg hcode, if_neg hcode]
  by_cases hlen : isLengthCode code = true
  · have hname := h (symbolKey field) (by simp [fieldReference?, hlen])
    rw [if_pos hlen, if_pos hlen]
    rcases hname.length with heq | ⟨hnone, hP⟩
    · rw [heq]; exact .refl _
    · rw [hnone]; exact .inr ⟨_, rfl, hP⟩
  rw [if_neg hlen, if_neg hlen]
  exact .refl _

theorem resolveText_agreeUnless {text : List Char} (hc : text = ['*'] → L'.counter = L.counter)
    (h : ∀ name ∈ textReference? text, L.symbols.AgreeUnless P L'.symbols name) :
    AgreeUnless P (resolveText L text) (resolveText L' text) := by
  unfold resolveText
  unfold textReference? at h
  cases hdec : Text.decimal? text with
  | some n => exact .refl _
  | none =>
    by_cases hstar : text = ['*']
    · simp only [hstar, if_pos, hc hstar]; exact .refl _
    simp only [if_neg hstar]
    simp only [hdec, Option.isSome_none, hstar, decide_false, Bool.or_false, Bool.false_eq_true,
      if_false] at h
    cases hquote : text.dropWhile (· != '\'') with
    | nil => exact resolveField_agreeUnless (by simpa only [hquote] using h)
    | cons q rest => exact resolveField_agreeUnless (by simpa only [hquote] using h)

theorem resolvePiece_agreeUnless {piece : Piece}
    (hc : piece = .operand ['*'] → L'.counter = L.counter)
    (h : ∀ name ∈ pieceReference? piece, L.symbols.AgreeUnless P L'.symbols name) :
    AgreeUnless P (resolvePiece L piece) (resolvePiece L' piece) := by
  cases piece with
  | operand text =>
    exact (resolveText_agreeUnless (fun ht => hc (by rw [ht])) h).bind fun _ _ => .refl _
  | operator sign => exact .refl _
  | leftParen => exact .refl _
  | rightParen => exact .refl _

theorem evaluate_of_split {text : String} {ps : List Piece}
    (h : split (Text.strip text.toList) = some ps) :
    evaluate L text = ps.mapM (resolvePiece L) >>= reduceTerms := by
  unfold evaluate
  simp only [h]

theorem evaluate_of_split_none {text : String} (h : split (Text.strip text.toList) = none) :
    evaluate L text = .error (.evaluationFailed
      (.unterminatedLiteral (String.ofList (Text.strip text.toList)))) := by
  unfold evaluate
  simp only [h]

theorem evaluate_agreeUnless {text : String} (hc : UsesCounter text → L'.counter = L.counter)
    (h : ∀ name ∈ references text, L.symbols.AgreeUnless P L'.symbols name) :
    AgreeUnless P (evaluate L text) (evaluate L' text) := by
  unfold UsesCounter references pieces at *
  cases hsplit : split (Text.strip text.toList) with
  | none =>
    rw [evaluate_of_split_none hsplit, evaluate_of_split_none hsplit]
    exact .refl _
  | some ps =>
    rw [evaluate_of_split hsplit, evaluate_of_split hsplit]
    simp only [hsplit, Option.getD_some] at hc h
    refine AgreeUnless.bind (.mapM fun piece hp => ?_) fun _ _ => .refl _
    exact resolvePiece_agreeUnless (fun hstar => hc (hstar ▸ hp))
      fun name hn => h name (List.mem_filterMap.2 ⟨piece, hp, hn⟩)

/-- An expression reads the counter and its references only. -/
theorem evaluate_congr {text : String} (hc : UsesCounter text → L'.counter = L.counter)
    (hd : ∀ name ∈ references text, L'.symbols.displacement name = L.symbols.displacement name)
    (hl : ∀ name ∈ references text, L'.symbols.length name = L.symbols.length name) :
    evaluate L' text = evaluate L text :=
  (evaluate_agreeUnless hc fun name hn => ⟨.inl (hd name hn), .inl (hl name hn)⟩).eq

/-- More symbols change no outcome but that of an undefined name. -/
theorem evaluate_extends {text : String} (hc : UsesCounter text → L'.counter = L.counter)
    (hs : L'.symbols.Extends L.symbols) :
    AgreeUnless EvalError.IsUndefined (evaluate L text) (evaluate L' text) :=
  evaluate_agreeUnless hc fun name _ => hs.agreeUnless name

end Expr
end AsmLayout
