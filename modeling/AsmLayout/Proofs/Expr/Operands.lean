import AsmLayout.Proofs.Expr.SelfDefining
import AsmLayout.Proofs.Token.Grammar

/-!
# Operands that have a value

An operand is cut out of a text by its signs, parentheses and white space only. Main statement:
`Expr.IsRegular.spells` (an operand that has a value is the spelling of a token, if all names with a
value are well-formed and the operand is none of the three kinds that are read leniently).
-/

namespace AsmLayout

namespace Text

theorem apostrophe_mem_undoubled {cs : List Char} (h : '\'' ∈ cs) : '\'' ∈ undoubled cs := by
  fun_induction undoubled cs with
  | case1 cs ih => exact List.mem_cons_self
  | case2 c cs hpair ih =>
    rcases List.mem_cons.1 h with rfl | h
    · exact List.mem_cons_self
    · exact List.mem_cons_of_mem c (ih h)
  | case3 => cases h

theorem undoubled_of_notMem {cs : List Char} (h : '\'' ∉ cs) : undoubled cs = cs := by
  have hdoubled : doubled cs = cs := doubled_of_ne fun c hc heq => h (heq ▸ hc)
  rw [← hdoubled, undoubled_doubled, hdoubled]

theorem takeWhile_undoubled (cs : List Char) :
    (undoubled cs).takeWhile (· != '&') = undoubled (cs.takeWhile (· != '&')) := by
  fun_induction undoubled cs with
  | case1 cs ih =>
    show '\'' :: (undoubled cs).takeWhile (· != '&') = _
    rw [ih]
    rfl
  | case2 c cs hpair ih =>
    by_cases hc : c = '&'
    · subst hc
      rfl
    · have hfree : c ≠ '\'' ∨ (cs.takeWhile (· != '&')).head? ≠ some '\'' := by
        by_contra hcontra
        obtain ⟨hquote, hhead⟩ := not_or.1 hcontra
        obtain ⟨tail, htail⟩ := List.head?_eq_some_iff.1 (not_not.1 hhead)
        cases cs with
        | nil => cases htail
        | cons d ds =>
          have hd : d = '\'' := by
            rw [List.takeWhile_cons] at htail
            split at htail
            · exact (List.cons.inj htail).1
            · cases htail
          exact hpair ds (not_not.1 hquote) (by rw [hd])
      have hkeep : (c != '&') = true := bne_iff_ne.2 hc
      rw [List.takeWhile_cons, if_pos hkeep, ih, List.takeWhile_cons, if_pos hkeep,
        undoubled_cons hfree]
  | case3 => rfl

/-- A text is a payload with its apostrophes doubled, or one that ends at an apostrophe. -/
theorem exists_doubled (cs : List Char) :
    (∃ payload, cs = doubled payload) ∨
      ∃ payload tail, cs = doubled payload ++ '\'' :: tail ∧ tail.head? ≠ some '\'' := by
  have hcons : ∀ {c : Char} {cs : List Char}, c ≠ '\'' →
      ((∃ payload, cs = doubled payload) ∨
        ∃ payload tail, cs = doubled payload ++ '\'' :: tail ∧ tail.head? ≠ some '\'') →
      (∃ payload, c :: cs = doubled payload) ∨
        ∃ payload tail, c :: cs = doubled payload ++ '\'' :: tail ∧ tail.head? ≠ some '\'' := by
    rintro c cs hc (⟨payload, rfl⟩ | ⟨payload, tail, rfl, htail⟩)
    · exact .inl ⟨c :: payload, by rw [doubled, if_neg hc]⟩
    · exact .inr ⟨c :: payload, tail, by rw [doubled, if_neg hc, List.cons_append], htail⟩
  fun_induction undoubled cs with
  | case1 cs ih =>
    rcases ih with ⟨payload, rfl⟩ | ⟨payload, tail, rfl, htail⟩
    · exact .inl ⟨'\'' :: payload, rfl⟩
    · exact .inr ⟨'\'' :: payload, tail, rfl, htail⟩
  | case2 c cs hpair ih =>
    by_cases hc : c = '\''
    · subst hc
      refine .inr ⟨[], cs, rfl, fun hhead => ?_⟩
      obtain ⟨tail, rfl⟩ := List.head?_eq_some_iff.1 hhead
      exact hpair tail rfl rfl
    · exact hcons hc ih
  | case3 => exact .inl ⟨[], rfl⟩

end Text

/-- Only well-formed names have a value. -/
structure Symbols.KnowsNames (σ : Symbols) : Prop where
  displacement : ∀ {name n}, σ.displacement name = some n → IsName name.toList
  length : ∀ {name n}, σ.length name = some n → IsName name.toList

namespace Expr

open Token

variable {L : Lookups} {o : Operand} {text code rest field payload : List Char} {c : Char}

/-- The splitter takes the text for one operand and is not inside quotes at its end. -/
def IsWhole (text : List Char) : Prop :=
  ∃ quoting, quoting ≠ .inside ∧
    text.foldl Splitter.step Splitter.start = ⟨[], text, quoting⟩

/-- Behind an apostrophe that opens quotes, there is one that closes them. -/
theorem IsWhole.closed (h : IsWhole (code ++ '\'' :: rest))
    (hcode : ∀ c ∈ code, isNameChar c = true) (hlength : isLengthCode (String.ofList code) = false) :
    ∃ payload tail, rest = Text.doubled payload ++ '\'' :: tail ∧ tail.head? ≠ some '\'' := by
  rcases Text.exists_doubled rest with ⟨payload, rfl⟩ | hclosed
  · obtain ⟨quoting, hquoting, hfold⟩ := h
    rw [List.foldl_append, Splitter.start, Splitter.foldl_isNameChar hcode, List.nil_append,
      List.foldl_cons, Splitter.step_apostrophe, hlength, if_neg Bool.false_ne_true,
      Splitter.foldl_doubled] at hfold
    injection hfold with _ _ hinside
    exact absurd hinside.symm hquoting
  · exact hclosed

/-- The name behind `L'` is not closed by an apostrophe. -/
theorem IsWhole.not_closed (h : IsWhole (c :: '\'' :: (field ++ ['\'']))) (hc : c = 'L' ∨ c = 'l')
    (hfield : ∀ c ∈ field, isNameChar c = true) : False := by
  obtain ⟨quoting, hquoting, hfold⟩ := h
  obtain ⟨hname, hlength⟩ := isName_lengthCode hc
  have hcode : Splitter.step Splitter.start c = ⟨[], [c], .outside⟩ :=
    Splitter.stepOutside_of_isNameChar (hname.chars c List.mem_cons_self)
  have hother : isLengthCode (String.ofList ([c] ++ ['\''] ++ field)) = false := by
    rw [Bool.eq_false_iff, ne_eq, isLengthCode_iff]
    simp
  rw [List.foldl_cons, hcode, List.foldl_cons, Splitter.step_apostrophe, hlength, if_pos rfl,
    List.foldl_append, Splitter.foldl_isNameChar hfield, List.foldl_cons, List.foldl_nil,
    Splitter.step_apostrophe, hother] at hfold
  injection hfold with _ _ hinside
  exact absurd hinside.symm hquoting

/-- Only text may hold an apostrophe. -/
theorem notMem_of_selfDefining {type : TypeCode} {value : Value} (htype : type ≠ .c)
    (h : selfDefining type field = .ok value) : '\'' ∉ field := by
  intro hmem
  cases payloadValue_of_selfDefining h with
  | text => exact htype rfl
  | hexadecimal hne hdigits => exact ne_apostrophe_of_isHexDigit (hdigits _ hmem) rfl
  | decimal _ hne hdigits => exact ne_apostrophe_of_signed hdigits _ hmem rfl

theorem resolveField_cases (h : resolveField L (String.ofList code) field = .ok o) :
    (code = [] ∧ ∃ n, L.symbols.displacement (symbolKey field) = some n) ∨
      ((code = ['L'] ∨ code = ['l']) ∧ ∃ n, L.symbols.length (symbolKey field) = some n) ∨
      ∃ type value, TypeCode.ofCode? (String.ofList code) = some type ∧
        selfDefining type field = .ok value := by
  unfold resolveField at h
  split at h
  · next hempty =>
    rw [Text.isEmpty_ofList, List.isEmpty_iff] at hempty
    split at h
    · next n hn => exact .inl ⟨hempty, n, hn⟩
    · cases h
  split at h
  · next hlength =>
    split at h
    · next n hn => exact .inr (.inl ⟨isLengthCode_iff.1 hlength, n, hn⟩)
    · cases h
  · split at h
    · next type htype =>
      cases hvalue : selfDefining type field with
      | error e => rw [hvalue] at h; cases h
      | ok value => exact .inr (.inr ⟨type, value, htype, hvalue⟩)
    · cases h

theorem resolveText_cases (h : resolveText L text = .ok o) :
    (∃ n : Int64, text ≠ [] ∧ (∀ c ∈ text, c.isDigit = true) ∧
      n.toInt = Text.digitsValue 10 text) ∨
    text = ['*'] ∨
    ('\'' ∉ text ∧ resolveField L "" text = .ok o) ∨
    ∃ code rest, text = code ++ '\'' :: rest ∧
      resolveField L (String.ofList code) (Text.undoubled (withoutClosing rest)) = .ok o := by
  unfold resolveText at h
  split at h
  · next value hvalue =>
    split at h
    · next n hn =>
      obtain ⟨hne, hdigits, rfl⟩ := Text.decimal?_eq_some_iff.1 hvalue
      exact .inl ⟨n, hne, hdigits, int64?_eq_some_iff.1 hn⟩
    · cases h
  split at h
  · next hstar => exact .inr (.inl hstar)
  split at h
  · next hnone =>
    refine .inr (.inr (.inl ⟨fun hmem => ?_, h⟩))
    rw [List.dropWhile_eq_nil_iff] at hnone
    exact absurd (hnone '\'' hmem) (by decide)
  · next d rest hdrop =>
    refine .inr (.inr (.inr ⟨text.takeWhile (· != '\''), rest, ?_, h⟩))
    have hd : d = '\'' := by
      have hhead := List.head?_dropWhile_not (· != '\'') text
      rw [hdrop] at hhead
      simpa using hhead
    rw [hd] at hdrop
    rw [← hdrop, List.takeWhile_append_dropWhile]

/-- What follows the apostrophe that closes a payload. -/
def afterClosing : List Char → List Char
  | '\'' :: '\'' :: cs => afterClosing cs
  | '\'' :: cs => cs
  | _ :: cs => afterClosing cs
  | [] => []

theorem afterClosing_doubled {tail : List Char} (htail : tail.head? ≠ some '\'') :
    afterClosing (Text.doubled payload ++ '\'' :: tail) = tail := by
  induction payload with
  | nil =>
    cases tail with
    | nil => rfl
    | cons d ds =>
      show afterClosing ('\'' :: d :: ds) = d :: ds
      rw [afterClosing]
      rintro cs ⟨⟩
      exact htail rfl
  | cons c payload ih =>
    by_cases hc : c = '\''
    · subst hc
      exact ih
    · rw [Text.doubled, if_neg hc, List.cons_append, afterClosing, ih]
      · exact fun _ h => absurd h hc
      · exact fun h => absurd h hc

/-- The operand is none of those that have a value although no token is written like them. -/
structure IsRegular (text : List Char) : Prop where
  /-- It does not begin with an apostrophe. -/
  start : text.head? ≠ some '\''
  /-- An `&` in a name has only characters of names behind it. -/
  name : '\'' ∉ text → ∀ c ∈ text.dropWhile (· != '&'), isNameChar c = true
  /-- So has an `&` in a name behind `L'`. -/
  lengthOf : ∀ c field, (c = 'L' ∨ c = 'l') → text = c :: '\'' :: field →
    ∀ d ∈ field.dropWhile (· != '&'), isNameChar d = true
  /-- Nothing stands behind the apostrophe that closes text. -/
  text : ∀ c rest, (c = 'C' ∨ c = 'c') → text = c :: '\'' :: rest → afterClosing rest = []

theorem IsRegular.of_notMem (hquote : '\'' ∉ text)
    (hname : ∀ c ∈ text.dropWhile (· != '&'), isNameChar c = true) : IsRegular text where
  start hhead := hquote (List.mem_of_head? hhead)
  name _ := hname
  lengthOf c _ _ htext := absurd (htext ▸ List.mem_cons_of_mem c List.mem_cons_self) hquote
  text c _ _ htext := absurd (htext ▸ List.mem_cons_of_mem c List.mem_cons_self) hquote

/-- A name is well-formed if its key is and only characters of names follow. -/
theorem isName_of_symbolKey (hkey : IsName (symbolKey field).toList)
    (hsuffix : ∀ c ∈ field.dropWhile (· != '&'), isNameChar c = true) : IsName field := by
  rw [symbolKey, String.toList_ofList] at hkey
  obtain ⟨⟨c, cs, hcs, hstart⟩, hchars⟩ := hkey
  have hfield := List.takeWhile_append_dropWhile (p := (· != '&')) (l := field)
  rw [← hfield]
  refine ⟨⟨c, _, by rw [hcs, List.cons_append], hstart⟩, fun d hd => ?_⟩
  exact (List.mem_append.1 hd).elim (hchars d) (hsuffix d)

theorem mem_dropWhile_of_isPrefix {p : Char → Bool} {cs ds : List Char} (h : cs <+: ds)
    (hc : c ∈ cs.dropWhile p) : c ∈ ds.dropWhile p := by
  obtain ⟨tail, rfl⟩ := h
  rw [List.dropWhile_append, if_neg]
  · exact List.mem_append_left _ hc
  · rw [List.isEmpty_iff]
    exact List.ne_nil_of_mem hc

theorem withoutClosing_cases (cs : List Char) :
    cs = withoutClosing cs ∨ cs = withoutClosing cs ++ ['\''] := by
  unfold withoutClosing
  split
  · next hlast =>
    obtain ⟨init, rfl⟩ := List.getLast?_eq_some_iff.1 hlast
    exact .inr (by rw [List.dropLast_concat])
  · exact .inl rfl

theorem withoutClosing_isPrefix (cs : List Char) : withoutClosing cs <+: cs := by
  rcases withoutClosing_cases cs with h | h
  · exact ⟨[], by rw [List.append_nil, ← h]⟩
  · exact ⟨['\''], h.symm⟩

theorem isName_of_lengthOf (hwhole : IsWhole (c :: '\'' :: rest)) (hc : c = 'L' ∨ c = 'l')
    (hsuffix : ∀ d ∈ rest.dropWhile (· != '&'), isNameChar d = true)
    (hkey : IsName (symbolKey (Text.undoubled (withoutClosing rest))).toList) : IsName rest := by
  have hkept : ∀ d ∈ (withoutClosing rest).dropWhile (· != '&'), isNameChar d = true :=
    fun d hd => hsuffix d (mem_dropWhile_of_isPrefix (withoutClosing_isPrefix rest) hd)
  have hplain : '\'' ∉ withoutClosing rest := by
    intro hmem
    rw [← List.takeWhile_append_dropWhile (p := (· != '&')) (l := withoutClosing rest)] at hmem
    rcases List.mem_append.1 hmem with hmem | hmem
    · have hkeymem := Text.apostrophe_mem_undoubled hmem
      rw [← Text.takeWhile_undoubled, ← String.toList_ofList (l := List.takeWhile _ _)] at hkeymem
      exact absurd (hkey.chars '\'' hkeymem) (by decide)
    · exact absurd (hkept '\'' hmem) (by decide)
  rw [Text.undoubled_of_notMem hplain] at hkey
  have hname := isName_of_symbolKey hkey hkept
  rcases withoutClosing_cases rest with hrest | hrest
  · rwa [← hrest] at hname
  · rw [hrest] at hwhole
    exact (hwhole.not_closed hc hname.chars).elim

theorem textCode_cases (h : TypeCode.ofCode? (String.ofList code) = some .c) :
    ∃ c, code = [c] ∧ (c = 'C' ∨ c = 'c') := by
  have hupper : TypeCode.c.code = Text.upperAscii (String.ofList code) := by
    simpa using List.find?_some h
  have hcode : TypeCode.c.code = String.ofList ['C'] := by decide
  rw [hcode, Text.upperAscii_ofList, String.ofList_inj] at hupper
  obtain ⟨c, rfl, hc⟩ := List.map_eq_singleton_iff.1 hupper.symm
  have hletter := Text.comp_toUpper (f := fun c => c == 'C' || c == 'c') (by decide) c
  simp only [hc] at hletter
  exact ⟨c, rfl, by simpa using hletter.symm⟩

/-- The field of a literal that has a value is closed by an apostrophe at its end. -/
theorem exists_payload (hwhole : IsWhole (code ++ '\'' :: rest))
    (hregular : IsRegular (code ++ '\'' :: rest)) {type : TypeCode} {value : Value}
    (htype : TypeCode.ofCode? (String.ofList code) = some type)
    (hvalue : selfDefining type (Text.undoubled (withoutClosing rest)) = .ok value) :
    ∃ payload, rest = Text.doubled payload ++ ['\''] := by
  obtain ⟨hname, hlength⟩ := isName_of_ofCode? htype
  obtain ⟨payload, tail, rfl, htail⟩ := hwhole.closed hname.chars hlength
  cases tail with
  | nil => exact ⟨payload, rfl⟩
  | cons d tail =>
    exfalso
    by_cases hc : type = .c
    · -- only text may hold an apostrophe
      subst hc
      obtain ⟨c, rfl, hcode⟩ := textCode_cases htype
      have hend := hregular.text c _ hcode rfl
      rw [afterClosing_doubled htail] at hend
      cases hend
    · refine notMem_of_selfDefining hc hvalue (Text.apostrophe_mem_undoubled ?_)
      unfold withoutClosing
      split
      · rw [List.dropLast_append_of_ne_nil (by simp)]
        exact List.mem_append_right _ List.mem_cons_self
      · exact List.mem_append_right _ List.mem_cons_self

/-- An operand that has a value is the spelling of a token, where an operand is due. -/
theorem IsRegular.spells (hregular : IsRegular text) (hwhole : IsWhole text)
    (hnames : L.symbols.KnowsNames) (h : resolveText L text = .ok o)
    {registers : String → Option UInt8} {before : List Token} (hdue : CounterFits before) :
    ∃ token, token.isOperand = true ∧ Spells registers before token text := by
  rcases resolveText_cases h with
    ⟨n, hne, hdigits, hn⟩ | rfl | ⟨hplain, hfield⟩ | ⟨code, rest, rfl, hfield⟩
  · exact ⟨_, rfl, .decimal hne hdigits hn⟩
  · exact ⟨_, rfl, .counter hdue⟩
  · -- a name
    have hname : IsName text := by
      have hfield' : resolveField L (String.ofList []) text = .ok o := hfield
      rcases resolveField_cases hfield' with ⟨-, n, hn⟩ | ⟨hcode | hcode, -⟩ | ⟨type, -, htype, -⟩
      · exact isName_of_symbolKey (hnames.displacement hn) (hregular.name hplain)
      · cases hcode
      · cases hcode
      · exact absurd rfl (isName_of_ofCode? htype).1.ne_nil
    cases hfind : registers (String.ofList text) with
    | some number => exact ⟨_, rfl, .register hname hfind⟩
    | none => exact ⟨_, rfl, .symbol hname hfind⟩
  · rcases resolveField_cases hfield with ⟨rfl, -⟩ | ⟨hcode, n, hn⟩ | ⟨type, value, htype, hvalue⟩
    · exact absurd rfl hregular.start
    · obtain ⟨c, hc, rfl⟩ : ∃ c, (c = 'L' ∨ c = 'l') ∧ code = [c] := by
        rcases hcode with rfl | rfl
        · exact ⟨'L', .inl rfl, rfl⟩
        · exact ⟨'l', .inr rfl, rfl⟩
      -- a length
      have hname : IsName rest :=
        isName_of_lengthOf hwhole hc (hregular.lengthOf c rest hc rfl) (hnames.length hn)
      exact ⟨_, rfl, .lengthOf hc hname.ne_nil hname.chars⟩
    · -- a literal, which is no length
      obtain ⟨payload, rfl⟩ := exists_payload hwhole hregular htype hvalue
      obtain ⟨hname, hlength⟩ := isName_of_ofCode? htype
      have hcode := isLengthCode_iff.not.1 (by rw [hlength]; exact Bool.false_ne_true)
      exact ⟨_, rfl, .literal hname (not_or.1 hcode)⟩

end Expr
end AsmLayout
