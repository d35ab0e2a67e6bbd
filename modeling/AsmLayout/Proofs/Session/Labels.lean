import AsmLayout.Proofs.Expr.EntryPoints
import AsmLayout.Proofs.Expr.Splitting
import AsmLayout.Proofs.Session.Independence
import AsmLayout.Proofs.Session.Position

/-!
# Every way to read a label

A label is read from the layout of its context, from the table, or by an expression in any context.
Layouts are snapshots, but a context is resolved once only, so they stay what the table holds
(`Session.Reachable.symbols_eq`). Main statement: `Session.reads_agree` (all ways lead to the same
entry).
-/

namespace AsmLayout

theorem SymbolTable.entriesIn_congr {t : SymbolTable} {context name : String}
    (h : t.normalize context = t.normalize name) : t.entriesIn context = t.entriesIn name := by
  rw [entriesIn, entriesIn, h]

theorem SymbolTable.entriesIn_normalize (t : SymbolTable) (context : String) :
    t.entriesIn (t.normalize context) = t.entriesIn context :=
  entriesIn_congr (t.normalize_normalize context)

namespace Session

variable {s : Session} {context : String} {layout : Layout}

theorem resolve_symbols_of_new (hnew : s.layout? context = none) (records : List Record) :
    (s.resolve context records).1.symbols =
      (s.resolve context records).2.table.entriesIn context := by
  have hfold := (s.firstPass_sameOutside context records).foldCase
  rw [resolve_of_new hnew]
  dsimp only
  rw [← SymbolTable.normalize_congr hfold, SymbolTable.entriesIn_normalize]

/-- The labels of a context are not touched by the resolution of another. -/
theorem Owned.entriesIn_resolve {name : String} (h : s.Owned) (hnew : s.layout? name = none)
    (hne : s.table.normalize context ≠ s.table.normalize name) (records : List Record) :
    (s.resolve name records).2.table.entriesIn context = s.table.entriesIn context := by
  have hfold := (resolve_sameSettings s name records).foldCase
  obtain ⟨-, -, -, hentries, -⟩ := h.resolve_new hnew records
  have hother : ((s.resolve name records).1.symbols.filter fun e =>
      e.context == s.table.normalize context) = [] := by
    rw [List.filter_eq_nil_iff, resolve_symbols_of_new hnew]
    intro e he
    have hcontext := (List.mem_filter.1 he).2
    rw [SymbolTable.normalize_congr hfold, beq_iff_eq] at hcontext
    rw [hcontext, beq_iff_eq]
    exact hne.symm
  rw [SymbolTable.entriesIn, SymbolTable.normalize_congr hfold, hentries, List.filter_append,
    hother, List.append_nil, SymbolTable.entriesIn]

/-- A layout has the labels that the table holds for its context, and finds them in the same way. -/
theorem Reachable.symbols_eq (h : s.Reachable) (hlayout : s.layout? context = some layout) :
    layout.symbols = s.table.entriesIn context ∧ layout.foldCase = s.table.foldCase := by
  induction h with
  | start registers foldCase => cases hlayout
  | @resolve s hs name records ih =>
    cases hnew : s.layout? name with
    | some known =>
      -- resolved before: nothing happens
      rw [resolve_of_cached hnew] at hlayout ⊢
      exact ih hlayout
    | none =>
      have hfold := (resolve_sameSettings s name records).foldCase
      by_cases hname : s.table.normalize context = s.table.normalize name
      · -- the context that has just been resolved
        have hname' : (s.resolve name records).2.table.normalize context =
            (s.resolve name records).2.table.normalize name := by
          rw [SymbolTable.normalize_congr hfold, hname]
        rw [layout?_congr hname', layout?_resolve] at hlayout
        cases hlayout
        rw [resolve_symbols_of_new hnew, SymbolTable.entriesIn_congr hname', resolve_of_new hnew]
        exact ⟨rfl, rfl⟩
      · -- another context: neither its layout nor its labels change
        rw [layout?_resolve_of_ne (Ne.symm hname)] at hlayout
        rw [hs.owned.entriesIn_resolve hnew hname, hfold]
        exact ih hlayout

theorem Reachable.lookup?_layout (h : s.Reachable) (hlayout : s.layout? context = some layout)
    (label : String) : layout.lookup? label = s.table.lookup? context label := by
  obtain ⟨hsymbols, hfold⟩ := h.symbols_eq hlayout
  rw [← find?_entriesIn, Layout.lookup?, hsymbols, hfold]
  rfl

end Session

namespace Expr

/-- The text refers to the name: it is the name, or the name with an `&` and further characters of
names behind it. It is no number. -/
structure IsReference (text : List Char) (name : String) : Prop where
  chars : ∀ c ∈ text, isNameChar c = true
  nondigit : ∃ c ∈ text, c.isDigit = false
  key : symbolKey text = name

variable {text : List Char} {name : String} {L : Lookups}

theorem IsReference.ne_nil (h : IsReference text name) : text ≠ [] := by
  obtain ⟨c, hc, -⟩ := h.nondigit
  exact List.ne_nil_of_mem hc

theorem evaluate_of_split_self (h : split text = some [.operand text]) :
    evaluate L (String.ofList text) = resolveText L text := by
  have hsplit : split (Text.strip (String.ofList text).toList) = some [.operand text] := by
    rw [split_strip, String.toList_ofList, h]
  rw [evaluate_of_split hsplit, List.mapM_cons, List.mapM_nil, resolvePiece]
  cases resolveText L text <;> rfl

theorem split_name (h : ∀ c ∈ text, isNameChar c = true) (hne : text ≠ []) :
    split text = some [.operand text] := by
  have hholds : (text.foldl Splitter.step Splitter.start).Holds ([] ++ [.operand text]) :=
    Splitter.holds_name h hne
  exact split_of_holds rfl hholds

theorem split_lengthOf (h : ∀ c ∈ text, isNameChar c = true) :
    split ('L' :: '\'' :: text) = some [.operand ('L' :: '\'' :: text)] := by
  have hholds : (⟨[], 'L' :: '\'' :: text, .outside⟩ : Splitter).Holds
      ([] ++ [.operand ('L' :: '\'' :: text)]) := Splitter.holds_operand (.inl rfl) (by simp)
  refine split_of_holds ?_ hholds
  have hcode : ['L', '\''].foldl Splitter.step Splitter.start = ⟨[], ['L', '\''], .outside⟩ := by
    decide
  show (['L', '\''] ++ text).foldl Splitter.step Splitter.start = _
  rw [List.foldl_append, hcode, Splitter.foldl_isNameChar h]
  rfl

/-- A reference is read as the symbol that it refers to. -/
theorem IsReference.evaluate (h : IsReference text name) :
    evaluate L (String.ofList text) = resolveField L "" text := by
  rw [evaluate_of_split_self (split_name h.chars h.ne_nil)]
  obtain ⟨c, hc, hdigit⟩ := h.nondigit
  have hstar : text ≠ ['*'] := by
    rintro rfl
    exact absurd (h.chars '*' (by simp)) (by decide)
  have hdrop : text.dropWhile (· != '\'') = [] := by
    rw [List.dropWhile_eq_nil_iff]
    exact fun c hc => ne_apostrophe_of_isNameChar (h.chars c hc)
  unfold resolveText
  rw [Text.decimal?_eq_none hc hdigit, if_neg hstar]
  simp only [hdrop]

/-- Behind `L'`, it is read as the length of that symbol. -/
theorem IsReference.evaluate_length (h : IsReference text name) :
    Expr.evaluate L (String.ofList ('L' :: '\'' :: text)) = resolveField L "L" text := by
  obtain ⟨hcode, -⟩ := isName_lengthCode (.inl rfl)
  rw [evaluate_of_split_self (split_lengthOf h.chars)]
  exact Token.resolveText_quoted hcode (Token.undoubled_name h.chars)

end Expr

/-- A character of a plain label: an ASCII letter or digit, `@`, `#`, `$` or `_`. -/
def isLabelChar (c : Char) : Bool := c.isAlphanum || c == '@' || c == '#' || c == '$' || c == '_'

/-- A label of such characters that is no number. -/
structure IsPlainLabel (label : String) : Prop where
  chars : ∀ c ∈ label.toList, isLabelChar c = true
  nondigit : ∃ c ∈ label.toList, c.isDigit = false

/-- Nothing, or an `&` and characters of names behind it. -/
def IsSuffix (suffix : String) : Prop :=
  suffix = "" ∨ ∃ tail, suffix.toList = '&' :: tail ∧ ∀ c ∈ tail, isNameChar c = true

variable {label other suffix : String} {c : Char}

theorem isNameChar_of_isLabelChar (h : isLabelChar c = true) : isNameChar c = true := by
  simp only [isLabelChar, isNameChar, Bool.or_eq_true] at h ⊢
  tauto

instance (label : String) : Decidable (IsPlainLabel label) :=
  decidable_of_iff
    ((label.toList.all isLabelChar && label.toList.any fun c => !c.isDigit) = true) (by
      simp only [Bool.and_eq_true, List.all_eq_true, List.any_eq_true, Bool.not_eq_true']
      exact ⟨fun h => ⟨h.1, h.2⟩, fun h => ⟨h.chars, h.nondigit⟩⟩)

theorem IsPlainLabel.ne_nil (h : IsPlainLabel label) : label.toList ≠ [] := by
  obtain ⟨c, hc, -⟩ := h.nondigit
  exact List.ne_nil_of_mem hc

theorem IsPlainLabel.notMem (h : IsPlainLabel label) (hc : isLabelChar c = false) :
    c ∉ label.toList := by
  intro hmem
  rw [h.chars c hmem] at hc
  cases hc

theorem IsSuffix.chars (h : IsSuffix suffix) : ∀ c ∈ suffix.toList, isNameChar c = true := by
  rcases h with rfl | ⟨tail, htail, hchars⟩
  · simp
  · rw [htail]
    simpa [isNameChar] using hchars

theorem IsSuffix.symbolKey_eq {name : List Char} (h : IsSuffix suffix) (hname : '&' ∉ name) :
    Expr.symbolKey (name ++ suffix.toList) = String.ofList name := by
  have hall : ∀ c ∈ name, (c != '&') = true := fun c hc => bne_iff_ne.2 fun heq => hname (heq ▸ hc)
  have htail : suffix.toList.takeWhile (· != '&') = [] := by
    rcases h with rfl | ⟨tail, htail, -⟩
    · rfl
    · rw [htail]; rfl
  rw [Expr.symbolKey, List.takeWhile_append_of_pos hall, htail, List.append_nil]

theorem IsPlainLabel.isReference (h : IsPlainLabel label) (hsuffix : IsSuffix suffix) :
    Expr.IsReference (label ++ suffix).toList label := by
  rw [String.toList_append]
  refine ⟨fun c hc => ?_, ?_, ?_⟩
  · exact (List.mem_append.1 hc).elim (fun hc => isNameChar_of_isLabelChar (h.chars c hc))
      (hsuffix.chars c)
  · obtain ⟨c, hc, hdigit⟩ := h.nondigit
    exact ⟨c, List.mem_append_left _ hc, hdigit⟩
  · rw [hsuffix.symbolKey_eq (h.notMem (by decide)), String.ofList_toList]

theorem toList_qualified :
    (other ++ "." ++ label).toList = other.toList ++ '.' :: label.toList := by
  simp [String.toList_append]

theorem IsPlainLabel.isReference_qualified (h : IsPlainLabel label) (hother : IsPlainLabel other)
    (hsuffix : IsSuffix suffix) :
    Expr.IsReference (other ++ "." ++ label ++ suffix).toList (other ++ "." ++ label) := by
  rw [String.toList_append, toList_qualified]
  refine ⟨fun c hc => ?_, ?_, ?_⟩
  · simp only [List.mem_append, List.mem_cons] at hc
    rcases hc with (hc | rfl | hc) | hc
    · exact isNameChar_of_isLabelChar (hother.chars c hc)
    · decide
    · exact isNameChar_of_isLabelChar (h.chars c hc)
    · exact hsuffix.chars c hc
  · obtain ⟨c, hc, hdigit⟩ := h.nondigit
    exact ⟨c, by simp [hc], hdigit⟩
  · have hfree : '&' ∉ other.toList ++ '.' :: label.toList := by
      simpa using ⟨hother.notMem (by decide), h.notMem (by decide)⟩
    rw [hsuffix.symbolKey_eq hfree, ← toList_qualified, String.ofList_toList]

theorem qualified?_join (h : IsPlainLabel label) (hother : IsPlainLabel other) :
    SymbolTable.qualified? (other ++ "." ++ label) = some (other, label) := by
  have hall : ∀ c ∈ other.toList, (c != '.') = true := fun c hc =>
    bne_iff_ne.2 fun heq => hother.notMem (c := '.') (by decide) (heq ▸ hc)
  have hsome : other.toList.isEmpty = false := by simpa using hother.ne_nil
  have hlabel := h.ne_nil
  unfold SymbolTable.qualified?
  simp only [toList_qualified, List.takeWhile_append_of_pos hall, List.dropWhile_append_of_pos hall]
  cases hchars : label.toList with
  | nil => exact absurd hchars hlabel
  | cons c cs =>
    have hback : String.ofList (c :: cs) = label := by rw [← hchars, String.ofList_toList]
    simp [hsome, hback]

namespace Session

variable {s : Session}

/-- What is read is the number of the entry, or the error where there is no entry. -/
def Answers (r : Except EvalError Operand) (found : Option SymbolEntry) (number : SymbolEntry → Int)
    (e : EvalError) : Prop :=
  match found with
  | some entry => ∃ n : Int64, r = .ok (.int n) ∧ n.toInt = number entry
  | none => r = .error e

theorem toInt_length (n : UInt32) : (Int64.ofNat n.toNat).toInt = n.toNat := by
  have hn := n.toNat_lt
  exact Int64.toInt_ofNat_of_lt (by omega)

theorem resolveField_answers (scope : String) (counter : Int64) {text : List Char} {name : String}
    {found : Option SymbolEntry} (hkey : Expr.symbolKey text = name)
    (hentry : s.table.resolve? (s.table.normalize scope) name = found) :
    Answers (Expr.resolveField (s.lookups scope counter) "" text) found
        (·.displacement.toInt) (.invalidSymbolKey name) ∧
      Answers (Expr.resolveField (s.lookups scope counter) "L" text) found
        (·.length.toNat) (.invalidLengthKey name) := by
  have hdisplacement : (s.lookups scope counter).symbols.displacement name =
      found.map SymbolEntry.displacement := by rw [← hentry]; rfl
  have hlength : (s.lookups scope counter).symbols.length name =
      found.map fun e => Int64.ofNat e.length.toNat := by rw [← hentry]; rfl
  have hcode : ("L".isEmpty = false) ∧ isLengthCode "L" = true := by decide
  constructor
  · rw [Expr.resolveField, if_pos (by decide), hkey, hdisplacement]
    cases found with
    | none => rfl
    | some entry => exact ⟨_, rfl, rfl⟩
  · rw [Expr.resolveField, if_neg (by simp [hcode.1]), if_pos hcode.2, hkey, hlength]
    cases found with
    | none => rfl
    | some entry => exact ⟨_, rfl, toInt_length entry.length⟩

theorem evaluate_answers (scope : String) (counter : Int64) {text name : String}
    {found : Option SymbolEntry} (h : Expr.IsReference text.toList name)
    (hentry : s.table.resolve? (s.table.normalize scope) name = found) :
    Answers (s.evaluate scope text counter) found (·.displacement.toInt) (.invalidSymbolKey name) ∧
      Answers (s.evaluate scope ("L'" ++ text) counter) found (·.length.toNat)
        (.invalidLengthKey name) := by
  obtain ⟨hplain, hlength⟩ := resolveField_answers scope counter h.key hentry
  have htext : s.evaluate scope text counter =
      Expr.resolveField (s.lookups scope counter) "" text.toList := by
    rw [evaluate, ← h.evaluate, String.ofList_toList]
  have hattribute : s.evaluate scope ("L'" ++ text) counter =
      Expr.resolveField (s.lookups scope counter) "L" text.toList := by
    have hlist : "L'" ++ text = String.ofList ('L' :: '\'' :: text.toList) := by
      simp [← String.toList_inj]
    rw [evaluate, hlist, h.evaluate_length]
  rw [htext, hattribute]
  exact ⟨hplain, hlength⟩

/-- The layout of a context finds a label as the table does. In an expression a label stands for the
displacement of its entry in the scope, with `L'` for the length; behind the name of a context and a
point, for those of its entry there. A suffix changes nothing. -/
theorem reads_agree (hs : s.Reachable) :
    (∀ context layout, s.layout? context = some layout →
      ∀ label, layout.lookup? label = s.table.lookup? context label) ∧
    ∀ (scope label suffix : String) (counter : Int64), IsPlainLabel label → IsSuffix suffix →
      Answers (s.evaluate scope (label ++ suffix) counter) (s.table.lookup? scope label)
        (·.displacement.toInt) (.invalidSymbolKey label) ∧
      Answers (s.evaluate scope ("L'" ++ (label ++ suffix)) counter) (s.table.lookup? scope label)
        (·.length.toNat) (.invalidLengthKey label) ∧
      ∀ other, IsPlainLabel other →
        Answers (s.evaluate scope (other ++ "." ++ label ++ suffix) counter)
          (s.table.lookup? other label) (·.displacement.toInt)
          (.invalidSymbolKey (other ++ "." ++ label)) ∧
        Answers (s.evaluate scope ("L'" ++ (other ++ "." ++ label ++ suffix)) counter)
          (s.table.lookup? other label) (·.length.toNat)
          (.invalidLengthKey (other ++ "." ++ label)) := by
  refine ⟨fun context layout hlayout => hs.lookup?_layout hlayout, ?_⟩
  intro scope label suffix counter hlabel hsuffix
  -- a plain label has no point, so it is looked up in the scope
  have hbare : s.table.resolve? (s.table.normalize scope) label = s.table.lookup? scope label := by
    rw [SymbolTable.resolve?_eq_get?, SymbolTable.target_normalize,
      SymbolTable.target_of_notMem (hlabel.notMem (by decide)), SymbolTable.lookup?_eq_get?]
  obtain ⟨hplain, hlength⟩ := evaluate_answers scope counter (hlabel.isReference hsuffix) hbare
  refine ⟨hplain, hlength, fun other hother => ?_⟩
  refine evaluate_answers scope counter (hlabel.isReference_qualified hother hsuffix) ?_
  rw [SymbolTable.resolve?, qualified?_join hlabel hother]

/-- Two contexts with a label of the same name, the first one redefined: the label of `A` is read
from its layout and from inside `B`, in small letters and with a suffix. -/
theorem reads_agree_across :
    let s := (((start .standard true).resolve "A"
      [⟨some "1X", .ds, "F"⟩, ⟨some "1X", .ds, "CL9"⟩]).2.resolve "B" [⟨some "1X", .equ, "7"⟩]).2
    s.table.lookup? "a" "1x" = some ⟨"1X", 4, 9, "A"⟩ ∧
      (∃ layout, s.layout? "a" = some layout ∧
        layout.lookup? "1x" = s.table.lookup? "a" "1x") ∧
      Answers (s.evaluate "B" "1X&Y.Z" 0) (s.table.lookup? "B" "1X") (·.displacement.toInt)
        (.invalidSymbolKey "1X") ∧
      Answers (s.evaluate "B" "L'a.1x&" 0) (s.table.lookup? "a" "1x") (·.length.toNat)
        (.invalidLengthKey "a.1x") := by
  intro s
  have hs : s.Reachable := .resolve (.resolve (.start .standard true) _ _) _ _
  obtain ⟨hlayout, hread⟩ := reads_agree hs
  have hlabel : IsPlainLabel "1X" := by decide +kernel
  have hsmall : IsPlainLabel "1x" := by decide +kernel
  have hother : IsPlainLabel "a" := by decide +kernel
  have hsuffix : IsSuffix "&Y.Z" := .inr ⟨['Y', '.', 'Z'], by simp, by simp [isNameChar]⟩
  have hempty : IsSuffix "&" := .inr ⟨[], by simp, by simp⟩
  have hresolved : (s.layout? "a").isSome = true := by decide +kernel
  obtain ⟨layout, hknown⟩ := Option.isSome_iff_exists.1 hresolved
  exact ⟨by decide +kernel, ⟨layout, hknown, hlayout "a" layout hknown "1x"⟩,
    (hread "B" "1X" "&Y.Z" 0 hlabel hsuffix).1,
    ((hread "B" "1x" "&" 0 hsmall hempty).2.2 "a" hother).2⟩

end Session
end AsmLayout
