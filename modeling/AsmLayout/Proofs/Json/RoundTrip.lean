import AsmLayout.Json.Read

/-!
# Written JSON is read back

The text of a value whose numbers are in the grammar of JSON is read as that value
(`Json.parse?_render`). What is written at any depth leads the reader from any place where a value
may begin to the value, behind the containers that were open before (`Reader.Spells`). A word or a
number is held while its lexeme is still open, as only the next character ends it (`Reader.Holds`).
-/

namespace AsmLayout.Json

/-- A value whose numbers are in the grammar of JSON. -/
inductive WellFormed : Json → Prop
  | null : WellFormed .null
  | bool (b : Bool) : WellFormed (.bool b)
  | number {text : String} : isNumber text.toList = true → WellFormed (.number text)
  | string (text : Option String) : WellFormed (.string text)
  | array {items : List Json} : (∀ item ∈ items, WellFormed item) → WellFormed (.array items)
  | object {members : List (Option String × Json)} :
    (∀ m ∈ members, WellFormed m.2) → WellFormed (.object members)

theorem WellFormed.text (s : String) : (Json.text s).WellFormed := .string _

theorem WellFormed.record {members : List (String × Json)}
    (h : ∀ m ∈ members, m.2.WellFormed) : (Json.record members).WellFormed := by
  refine .object fun m hm => ?_
  obtain ⟨m, hmem, rfl⟩ := List.mem_map.1 hm
  exact h m hmem

namespace Reader

variable {r r' : Reader} {frames : List Frame} {place : Place} {value : Json} {c : Char}
  {cs ds : List Char}

/-- The reader after the given characters. -/
def run? (r : Reader) (cs : List Char) : Option Reader := cs.foldlM step r

@[simp] theorem run?_nil : r.run? [] = some r := rfl

@[simp] theorem run?_cons : r.run? (c :: cs) = (r.step c).bind (·.run? cs) := rfl

theorem run?_append : r.run? (cs ++ ds) = (r.run? cs).bind (·.run? ds) := by
  simp [run?, List.foldlM_append]

theorem run?_append_of (h : r.run? cs = some r') : r.run? (cs ++ ds) = r'.run? ds := by
  rw [run?_append, h, Option.bind_some]

/-- Blanks between two lexemes are passed over. -/
theorem run?_of_spaces (h : ∀ c ∈ cs, isSpace c = true) :
    run? ⟨frames, place, .none⟩ cs = some ⟨frames, place, .none⟩ := by
  induction cs with
  | nil => rfl
  | cons c cs ih =>
    rw [run?_cons]
    have hc : step ⟨frames, place, .none⟩ c = some ⟨frames, place, .none⟩ :=
      if_pos (h c (by simp))
    rw [hc, Option.bind_some]
    exact ih fun d hd => h d (by simp [hd])

theorem isSpace_of_mem_newline (depth : Nat) (h : c ∈ newline depth) : isSpace c = true := by
  rcases List.mem_cons.1 h with rfl | h
  · rfl
  · rw [List.eq_of_mem_replicate h]
    rfl

theorem run?_newline {depth : Nat} :
    run? ⟨frames, place, .none⟩ (newline depth) = some ⟨frames, place, .none⟩ :=
  run?_of_spaces fun _ => isSpace_of_mem_newline depth

/-- The reader holds `value` behind `frames`: nothing is open, or a word that stands for it. -/
inductive Holds (frames : List Frame) (value : Json) : Reader → Prop
  | ended : Holds frames value ⟨frames, .after value, .none⟩
  | word {place : Place} {chars : List Char} :
    ofWord? chars = some value → Holds frames value ⟨frames, place, .word chars⟩

/-- A character that is not of a word finds the value complete. -/
theorem Holds.step_eq (h : r.Holds frames value) (hc : isWordChar c = false) :
    r.step c = stepBetween ⟨frames, .after value, .none⟩ c := by
  cases h with
  | ended => rfl
  | word hword => simp [step, hc, endWord, hword]

theorem isWordChar_of_isSpace (h : isSpace c = true) : isWordChar c = false := by
  simp only [isSpace, Bool.or_eq_true, beq_iff_eq] at h
  rcases h with ((rfl | rfl) | rfl) | rfl <;> rfl

/-- Blanks complete what is held. -/
theorem Holds.run?_of_spaces (h : r.Holds frames value) (hne : cs ≠ [])
    (hcs : ∀ c ∈ cs, isSpace c = true) :
    r.run? cs = some ⟨frames, .after value, .none⟩ := by
  cases cs with
  | nil => exact absurd rfl hne
  | cons c cs =>
    obtain ⟨hc, hcs⟩ := List.forall_mem_cons.1 hcs
    have hstep : stepBetween ⟨frames, .after value, .none⟩ c =
        some ⟨frames, .after value, .none⟩ := if_pos hc
    rw [run?_cons, h.step_eq (isWordChar_of_isSpace hc), hstep, Option.bind_some]
    exact Reader.run?_of_spaces hcs

theorem Holds.run?_newline {depth : Nat} (h : r.Holds frames value) :
    r.run? (newline depth) = some ⟨frames, .after value, .none⟩ :=
  h.run?_of_spaces (List.cons_ne_nil _ _) fun _ => isSpace_of_mem_newline depth

theorem Holds.finish_eq (h : r.Holds [] value) : r.finish = some value := by
  cases h with
  | ended => rfl
  | word hword => simp [finish, endWord, hword]

/-- The places where a value may begin. -/
def Begins (place : Place) : Prop := place = .value ∨ place = .firstItem

/-- A value begins with any character but a blank or the end of an array. -/
theorem step_of_begins (hplace : Begins place) (hspace : isSpace c = false) (hend : c ≠ ']') :
    step ⟨frames, place, .none⟩ c = openValue ⟨frames, place, .none⟩ c := by
  rcases hplace with rfl | rfl <;> simp [step, stepBetween, hspace, hend]

/-- The characters lead from any place where a value may begin to the value. -/
def Spells (cs : List Char) (value : Json) : Prop :=
  ∀ frames place, Begins place →
    ∃ r, run? ⟨frames, place, .none⟩ cs = some r ∧ r.Holds frames value

/-! ### Words and numbers -/

theorem run?_word {chars : List Char} (h : ∀ c ∈ cs, isWordChar c = true) :
    run? ⟨frames, place, .word chars⟩ cs = some ⟨frames, place, .word (chars ++ cs)⟩ := by
  induction cs generalizing chars with
  | nil => simp
  | cons c cs ih =>
    rw [run?_cons]
    have hc : step ⟨frames, place, .word chars⟩ c = some ⟨frames, place, .word (chars ++ [c])⟩ :=
      if_pos (h c (by simp))
    rw [hc, Option.bind_some, ih fun d hd => h d (by simp [hd]), List.append_assoc]
    rfl

theorem step_wordChar (hplace : Begins place) (hc : isWordChar c = true) :
    step ⟨frames, place, .none⟩ c = some ⟨frames, .value, .word [c]⟩ := by
  have hne : ∀ d, isWordChar d = false → c ≠ d := by
    rintro d hd rfl
    rw [hc] at hd
    cases hd
  have hspace : isSpace c = false := by
    simp [isSpace, hne ' ' rfl, hne '\n' rfl, hne '\t' rfl, hne '\r' rfl]
  rw [step_of_begins hplace hspace (hne ']' rfl)]
  simp [openValue, hc, hne '"' rfl, hne '[' rfl, hne '\x7b' rfl]

theorem spells_word (cs : List Char) (hword : ofWord? cs = some value)
    (h : ∀ c ∈ cs, isWordChar c = true) (hcs : cs ≠ []) : Spells cs value := by
  intro frames place hplace
  obtain ⟨c, cs, rfl⟩ := List.exists_cons_of_ne_nil hcs
  refine ⟨⟨frames, .value, .word (c :: cs)⟩, ?_, .word hword⟩
  rw [run?_cons, step_wordChar hplace (h c (by simp)), Option.bind_some]
  exact run?_word fun d hd => h d (by simp [hd])

end Reader

section Numbers

open Reader (isWordChar)

variable {cs : List Char}

theorem isWordChar_of_isDigit {c : Char} (h : c.isDigit = true) : isWordChar c = true := by
  simp [isWordChar, Char.isAlphanum, h]

theorem isWordChar_of_isExponent (h : isExponent cs = true) : ∀ c ∈ cs, isWordChar c = true := by
  have hdigits : ∀ ds : List Char, (!ds.isEmpty && ds.all Char.isDigit) = true →
      ∀ c ∈ ds, isWordChar c = true := fun ds hds c hc =>
    isWordChar_of_isDigit (List.all_eq_true.1 (Bool.and_eq_true_iff.1 hds).2 c hc)
  unfold isExponent at h
  split at h
  · exact List.forall_mem_cons.2 ⟨rfl, hdigits _ h⟩
  · exact List.forall_mem_cons.2 ⟨rfl, hdigits _ h⟩
  · exact hdigits _ h

theorem isWordChar_of_isScale (h : isScale cs = true) : ∀ c ∈ cs, isWordChar c = true := by
  unfold isScale at h
  split at h
  · simp
  · exact List.forall_mem_cons.2 ⟨rfl, isWordChar_of_isExponent h⟩
  · exact List.forall_mem_cons.2 ⟨rfl, isWordChar_of_isExponent h⟩
  · cases h

/-- Digits and then characters of words are characters of words. -/
theorem isWordChar_of_dropWhile (h : ∀ c ∈ cs.dropWhile Char.isDigit, isWordChar c = true) :
    ∀ c ∈ cs, isWordChar c = true := by
  intro c hc
  rw [← List.takeWhile_append_dropWhile (p := Char.isDigit) (l := cs)] at hc
  rcases List.mem_append.1 hc with hc | hc
  · exact isWordChar_of_isDigit (List.all_eq_true.1 List.all_takeWhile c hc)
  · exact h c hc

theorem isWordChar_of_isFraction (h : isFraction cs = true) : ∀ c ∈ cs, isWordChar c = true := by
  unfold isFraction at h
  split at h
  · rw [Bool.and_eq_true] at h
    exact List.forall_mem_cons.2 ⟨rfl, isWordChar_of_dropWhile (isWordChar_of_isScale h.2)⟩
  · exact isWordChar_of_isScale h

theorem isWordChar_of_isMagnitude (h : isMagnitude cs = true) :
    ∀ c ∈ cs, isWordChar c = true := by
  unfold isMagnitude at h
  split at h
  · exact List.forall_mem_cons.2 ⟨rfl, isWordChar_of_isFraction h⟩
  · rw [Bool.and_eq_true] at h
    exact isWordChar_of_dropWhile (isWordChar_of_isFraction h.2)

theorem isWordChar_of_isNumber (h : isNumber cs = true) : ∀ c ∈ cs, isWordChar c = true := by
  unfold isNumber at h
  split at h
  · exact List.forall_mem_cons.2 ⟨rfl, isWordChar_of_isMagnitude h⟩
  · exact isWordChar_of_isMagnitude h

theorem ofWord?_of_isNumber (h : isNumber cs = true) :
    ofWord? cs = some (.number (String.ofList cs)) := by
  have hne : ∀ word, isNumber word = false → cs ≠ word := by
    rintro word hword rfl
    rw [h] at hword
    cases hword
  rw [ofWord?, if_neg (hne _ (by decide)), if_neg (hne _ (by decide)), if_neg (hne _ (by decide)),
    if_pos h]

theorem spells_number {text : String} (h : isNumber text.toList = true) :
    Reader.Spells text.toList (.number text) := by
  refine Reader.spells_word _ ?_ (isWordChar_of_isNumber h) ?_
  · rw [ofWord?_of_isNumber h, String.ofList_toList]
  · intro hnil
    rw [hnil] at h
    revert h
    decide

theorem digitChar_ne_zero {n : Nat} (hpos : 0 < n) (h : n < 10) : Nat.digitChar n ≠ '0' := by
  have hall : ∀ m < 10, 0 < m → Nat.digitChar m ≠ '0' := by decide
  exact hall n h hpos

/-- The numeral of a number that is not zero does not begin with a zero. -/
theorem head?_toDigits {n : Nat} (hpos : 0 < n) : (Nat.toDigits 10 n).head? ≠ some '0' := by
  induction n using Nat.strongRecOn with
  | _ n ih =>
    by_cases h : n < 10
    · rw [Nat.toDigits_of_lt_base h, List.head?_cons]
      exact fun hzero => digitChar_ne_zero hpos h (Option.some.inj hzero)
    · have hfront := ih (n / 10) (by omega) (by omega)
      rw [Nat.toDigits_of_base_le (by decide) (Nat.not_lt.1 h)]
      cases hdigits : Nat.toDigits 10 (n / 10) with
      | nil => exact absurd hdigits Nat.toDigits_ne_nil
      | cons d ds => rwa [hdigits] at hfront

theorem isMagnitude_toDigits (n : Nat) : isMagnitude (Nat.toDigits 10 n) = true := by
  have hdigits : ∀ c ∈ Nat.toDigits 10 n, c.isDigit = true := fun c hc =>
    Nat.isDigit_of_mem_toDigits (by decide) (by decide) hc
  by_cases hpos : 0 < n
  · have hall : (Nat.toDigits 10 n).takeWhile Char.isDigit = Nat.toDigits 10 n := by
      simpa using @List.takeWhile_append_of_pos _ Char.isDigit _ [] hdigits
    have hnone : (Nat.toDigits 10 n).dropWhile Char.isDigit = [] := by
      simpa using @List.dropWhile_append_of_pos _ Char.isDigit _ [] hdigits
    unfold isMagnitude
    split
    · next hzero => exact absurd (by rw [hzero]; rfl) (head?_toDigits hpos)
    · rw [hall, hnone]
      simp [isFraction, isScale, Nat.toDigits_ne_nil]
  · rw [Nat.eq_zero_of_not_pos hpos]
    decide

theorem isNumber_int (n : Int) : isNumber (toString n).toList = true := by
  rw [Int.toString_eq_repr, Int.repr_eq_if]
  split
  · rw [Nat.repr_eq_ofList_toDigits, String.toList_ofList]
    unfold isNumber
    split
    · next hsign =>
      have hdigit : '-'.isDigit = true :=
        Nat.isDigit_of_mem_toDigits (by decide) (by decide) (hsign ▸ List.mem_cons_self)
      cases hdigit
    · exact isMagnitude_toDigits _
  · have hsigned : ("-" ++ (-n).toNat.repr).toList = '-' :: Nat.toDigits 10 (-n).toNat := by
      simp [Nat.repr_eq_ofList_toDigits]
    rw [hsigned]
    exact isMagnitude_toDigits _

theorem WellFormed.int (n : Int) : (Json.int n).WellFormed := .number (isNumber_int n)

end Numbers

/-! ### String literals -/

theorem hexDigit_spec {n : Nat} (h : n < 16) :
    Text.isHexDigit (hexDigit n) = true ∧ Text.digitValue (hexDigit n) = n := by
  revert n
  decide

theorem hexDigit_mod (n : Nat) : hexDigit (n % 16) = hexDigit n := by
  rw [hexDigit, Nat.mod_mod, hexDigit]

theorem elementsText_unit {n : Nat} (h : n < 0xD800) (rest : List Element) :
    elementsText (.unit n :: rest) = (elementsText rest).map (Char.ofNat n :: ·) := by
  have hhigh : ¬ (0xD800 ≤ n) := by omega
  have hlow : ¬ (0xDC00 ≤ n) := by omega
  conv => lhs; unfold elementsText
  simp [hhigh, hlow]

namespace Reader

variable {frames : List Frame} {place : Place} {elements : List Element} {c : Char}

theorem step_hexDigit {n missing value : Nat} (h : n < 16) :
    step ⟨frames, place, .code elements (missing + 2) value⟩ (hexDigit n) =
      some ⟨frames, place, .code elements (missing + 1) (value * 16 + n)⟩ := by
  obtain ⟨hdigit, hvalue⟩ := hexDigit_spec h
  simp [step, hdigit, hvalue]

theorem step_last_hexDigit {n value : Nat} (h : n < 16) :
    step ⟨frames, place, .code elements 1 value⟩ (hexDigit n) =
      some ⟨frames, place, .string (elements ++ [.unit (value * 16 + n)])⟩ := by
  obtain ⟨hdigit, hvalue⟩ := hexDigit_spec h
  simp [step, hdigit, hvalue]

/-- A control character comes back from its code. -/
theorem run?_control {n : Nat} (h : n < 0x20) :
    run? ⟨frames, place, .string elements⟩
      ['\\', 'u', '0', '0', hexDigit (n / 16), hexDigit n] =
      some ⟨frames, place, .string (elements ++ [.unit n])⟩ := by
  have hvalue : (0 * 16 + n / 16) * 16 + n % 16 = n := by omega
  calc
    _ = run? ⟨frames, place, .code elements 2 0⟩ [hexDigit (n / 16), hexDigit n] := rfl
    _ = run? ⟨frames, place, .code elements 1 (0 * 16 + n / 16)⟩ [hexDigit (n % 16)] := by
      rw [run?_cons, step_hexDigit (by omega), Option.bind_some, hexDigit_mod]
    _ = _ := by rw [run?_cons, step_last_hexDigit (by omega), Option.bind_some, run?_nil, hvalue]

/-- A written character is read as one element, which stands for it. -/
theorem run?_escapedChar (frames : List Frame) (place : Place) (elements : List Element)
    (c : Char) :
    ∃ e, run? ⟨frames, place, .string elements⟩ (escapedChar c) =
        some ⟨frames, place, .string (elements ++ [e])⟩ ∧
      ∀ rest, elementsText (e :: rest) = (elementsText rest).map (c :: ·) := by
  by_cases hnamed : c = '"' ∨ c = '\\' ∨ c = '\x08' ∨ c = '\x0c' ∨ c = '\n' ∨ c = '\r' ∨ c = '\t'
  · rcases hnamed with rfl | rfl | rfl | rfl | rfl | rfl | rfl
    all_goals exact ⟨.char _, rfl, fun _ => rfl⟩
  · simp only [not_or] at hnamed
    obtain ⟨hquote, hslash, hb, hf, hn, hr, ht⟩ := hnamed
    simp only [escapedChar, hquote, hslash, hb, hf, hn, hr, ht, if_false]
    split
    · next hcontrol =>
      refine ⟨.unit c.toNat, run?_control hcontrol, fun rest => ?_⟩
      rw [elementsText_unit (by omega), Char.ofNat_toNat]
    · next hcontrol => exact ⟨.char c, by simp [step, hquote, hslash, hcontrol], fun _ => rfl⟩

theorem run?_flatMap_escapedChar (frames : List Frame) (place : Place) (elements : List Element)
    (cs : List Char) :
    ∃ es, run? ⟨frames, place, .string elements⟩ (cs.flatMap escapedChar) =
        some ⟨frames, place, .string (elements ++ es)⟩ ∧ elementsText es = some cs := by
  induction cs generalizing elements with
  | nil => exact ⟨[], by simp, rfl⟩
  | cons c cs ih =>
    obtain ⟨e, hrun, htext⟩ := run?_escapedChar frames place elements c
    obtain ⟨es, hruns, htexts⟩ := ih (elements ++ [e])
    refine ⟨e :: es, ?_, ?_⟩
    · rw [List.flatMap_cons, run?_append_of hrun, hruns, List.append_assoc]
      rfl
    · rw [htext, htexts]
      rfl

/-- A literal, once its first quote has been read, ends as the string that it was written for. -/
theorem run?_literal (text : Option String) {r : Reader}
    (h : r.step '"' = some ⟨frames, place, .string []⟩) :
    ∃ es, r.run? (literal text) = endString ⟨frames, place, .string es⟩ es ∧
      (elementsText es).map String.ofList = text := by
  cases text with
  | none =>
    refine ⟨[.unit 0xD800], ?_, rfl⟩
    rw [literal, run?_cons, h, Option.bind_some]
    exact Option.bind_fun_some (endString ⟨frames, place, .string [.unit 0xD800]⟩ [.unit 0xD800])
  | some s =>
    obtain ⟨es, hrun, htext⟩ := run?_flatMap_escapedChar frames place [] s.toList
    refine ⟨es, ?_, by rw [htext, Option.map_some, String.ofList_toList]⟩
    rw [literal, List.cons_append, run?_cons, h, Option.bind_some, run?_append_of hrun]
    exact Option.bind_fun_some _

theorem spells_literal (text : Option String) : Spells (literal text) (.string text) := by
  intro frames place hplace
  have hquote : step ⟨frames, place, .none⟩ '"' = some ⟨frames, .value, .string []⟩ :=
    step_of_begins hplace rfl (by decide)
  obtain ⟨es, hrun, htext⟩ := run?_literal text hquote
  refine ⟨_, hrun.trans ?_, .ended⟩
  simp [endString, htext]

/-! ### Containers -/

/-- The reader holds the last of the items of an array that is open. -/
def HoldsItems (frames : List Frame) (items : List Json) (r : Reader) : Prop :=
  ∃ done last, r.Holds (.array done :: frames) last ∧ done ++ [last] = items

theorem Holds.items {done : List Json} {last : Json} {r : Reader}
    (h : r.Holds (.array done :: frames) last) : r.HoldsItems frames (done ++ [last]) :=
  ⟨done, last, h, rfl⟩

theorem HoldsItems.run?_writeItems {done items : List Json} {depth : Nat} {r : Reader}
    (hitems : ∀ item ∈ items, Spells (item.write depth) item) (h : r.HoldsItems frames done) :
    ∃ r', r.run? (writeItems depth items) = some r' ∧ r'.HoldsItems frames (done ++ items) := by
  induction items generalizing r done with
  | nil => exact ⟨r, by rw [writeItems, run?_nil], by rwa [List.append_nil]⟩
  | cons item items ih =>
    obtain ⟨front, last, hlast, rfl⟩ := h
    obtain ⟨mid, hmid, hitem⟩ :=
      hitems item (by simp) (.array (front ++ [last]) :: frames) .value (.inl rfl)
    obtain ⟨r', hrun, hr'⟩ := ih (fun x hx => hitems x (by simp [hx])) hitem.items
    refine ⟨r', ?_, by rwa [List.append_cons]⟩
    rw [writeItems, List.cons_append, List.cons_append, run?_cons, hlast.step_eq rfl]
    show run? ⟨.array (front ++ [last]) :: frames, .value, .none⟩ _ = _
    rw [List.append_assoc, run?_append_of run?_newline, run?_append_of hmid, hrun]

theorem HoldsItems.run?_end {items : List Json} {depth : Nat} {r : Reader}
    (h : r.HoldsItems frames items) :
    r.run? (newline depth ++ [']']) = some ⟨frames, .after (.array items), .none⟩ := by
  obtain ⟨done, last, hlast, rfl⟩ := h
  rw [run?_append_of hlast.run?_newline]
  rfl

theorem spells_array {items : List Json} {depth : Nat}
    (h : ∀ item ∈ items, Spells (item.write (depth + 1)) item) :
    Spells (write depth (.array items)) (.array items) := by
  intro frames place hplace
  cases items with
  | nil =>
    refine ⟨_, ?_, .ended⟩
    rw [write, run?_cons, step_of_begins hplace rfl (by decide)]
    rfl
  | cons item items =>
    obtain ⟨r, hitem, hr⟩ := h item (by simp) (.array [] :: frames) .firstItem (.inr rfl)
    obtain ⟨r', hrun, hr'⟩ := hr.items.run?_writeItems fun x hx => h x (List.mem_cons_of_mem _ hx)
    refine ⟨_, ?_, .ended⟩
    rw [write, List.append_assoc, List.append_assoc, List.append_assoc, List.cons_append, run?_cons,
      step_of_begins hplace rfl (by decide)]
    show run? ⟨.array [] :: frames, .firstItem, .none⟩ _ = _
    rw [run?_append_of run?_newline, run?_append_of hitem, run?_append_of hrun, hr'.run?_end]
    rfl

/-- The reader holds the value of the last of the members of an object that is open. -/
def HoldsMembers (frames : List Frame) (members : List (Option String × Json)) (r : Reader) :
    Prop :=
  ∃ done key last, r.Holds (.object done key :: frames) last ∧ done ++ [(key, last)] = members

/-- A member is read where a key may stand: after a comma, or first of all. -/
theorem run?_writeMember {member : Option String × Json} {done : List (Option String × Json)}
    {depth : Nat} (frames : List Frame) (hvalue : Spells (member.2.write depth) member.2)
    (hplace : place = .key done ∨ place = .firstKey ∧ done = []) :
    ∃ r, run? ⟨frames, place, .none⟩ (writeMember depth member) = some r ∧
      r.HoldsMembers frames (done ++ [member]) := by
  have hquote : step ⟨frames, place, .none⟩ '"' = some ⟨frames, place, .string []⟩ := by
    rcases hplace with rfl | ⟨rfl, -⟩ <;> rfl
  obtain ⟨es, hkey, htext⟩ := run?_literal member.1 hquote
  have hend : endString ⟨frames, place, .string es⟩ es =
      some ⟨frames, .colon done member.1, .none⟩ := by
    rcases hplace with rfl | ⟨rfl, rfl⟩ <;> simp [endString, htext]
  obtain ⟨r, hrun, hr⟩ := hvalue (.object done member.1 :: frames) .value (.inl rfl)
  refine ⟨r, ?_, done, member.1, member.2, hr, rfl⟩
  rw [writeMember, List.append_assoc, run?_append_of (hkey.trans hend)]
  exact hrun

theorem HoldsMembers.run?_writeMembers {done members : List (Option String × Json)} {depth : Nat}
    {r : Reader} (hmembers : ∀ m ∈ members, Spells (m.2.write depth) m.2)
    (h : r.HoldsMembers frames done) :
    ∃ r', r.run? (writeMembers depth members) = some r' ∧
      r'.HoldsMembers frames (done ++ members) := by
  induction members generalizing r done with
  | nil => exact ⟨r, by rw [writeMembers, run?_nil], by rwa [List.append_nil]⟩
  | cons member members ih =>
    obtain ⟨front, key, last, hlast, rfl⟩ := h
    obtain ⟨mid, hmid, hmember⟩ := run?_writeMember frames (hmembers member (by simp)) (.inl rfl)
    obtain ⟨r', hrun, hr'⟩ := ih (fun m hm => hmembers m (by simp [hm])) hmember
    refine ⟨r', ?_, by rwa [List.append_cons]⟩
    rw [writeMembers, List.cons_append, List.cons_append, run?_cons, hlast.step_eq rfl]
    show run? ⟨frames, .key (front ++ [(key, last)]), .none⟩ _ = _
    rw [List.append_assoc, run?_append_of run?_newline, run?_append_of hmid, hrun]

theorem HoldsMembers.run?_end {members : List (Option String × Json)} {depth : Nat} {r : Reader}
    (h : r.HoldsMembers frames members) :
    r.run? (newline depth ++ ['\x7d']) = some ⟨frames, .after (.object members), .none⟩ := by
  obtain ⟨done, key, last, hlast, rfl⟩ := h
  rw [run?_append_of hlast.run?_newline]
  rfl

theorem spells_object {members : List (Option String × Json)} {depth : Nat}
    (h : ∀ m ∈ members, Spells (m.2.write (depth + 1)) m.2) :
    Spells (write depth (.object members)) (.object members) := by
  intro frames place hplace
  cases members with
  | nil =>
    refine ⟨_, ?_, .ended⟩
    rw [write, run?_cons, step_of_begins hplace rfl (by decide)]
    rfl
  | cons member members =>
    obtain ⟨r, hmember, hr⟩ := run?_writeMember frames (h member (by simp)) (.inr ⟨rfl, rfl⟩)
    obtain ⟨r', hrun, hr'⟩ := hr.run?_writeMembers fun m hm => h m (List.mem_cons_of_mem _ hm)
    refine ⟨_, ?_, .ended⟩
    rw [write, List.append_assoc, List.append_assoc, List.append_assoc, List.cons_append, run?_cons,
      step_of_begins hplace rfl (by decide)]
    show run? ⟨frames, .firstKey, .none⟩ _ = _
    rw [run?_append_of run?_newline, run?_append_of hmember, run?_append_of hrun, hr'.run?_end]
    rfl

end Reader

theorem WellFormed.spells {value : Json} (h : value.WellFormed) (depth : Nat) :
    Reader.Spells (value.write depth) value := by
  induction h generalizing depth with
  | null => exact Reader.spells_word "null".toList rfl (List.all_eq_true.1 rfl) (by decide)
  | bool b =>
    cases b with
    | false => exact Reader.spells_word "false".toList rfl (List.all_eq_true.1 rfl) (by decide)
    | true => exact Reader.spells_word "true".toList rfl (List.all_eq_true.1 rfl) (by decide)
  | number h => exact spells_number h
  | string text => exact Reader.spells_literal text
  | array _ ih => exact Reader.spells_array fun item hitem => ih item hitem _
  | object _ ih => exact Reader.spells_object fun m hm => ih m hm _

/-- A text written for a value is read as that value, also with blanks behind it. -/
theorem parse?_render_append {value : Json} {blanks : String} (h : value.WellFormed)
    (hblanks : ∀ c ∈ blanks.toList, Reader.isSpace c = true) :
    parse? (value.render ++ blanks) = some value := by
  obtain ⟨r, hrun, hr⟩ := h.spells 0 [] .value (.inl rfl)
  have hstart : Reader.start.run? (value.write 0) = some r := hrun
  rw [parse?, render, String.toList_append, String.toList_ofList]
  show (Reader.start.run? (value.write 0 ++ blanks.toList)).bind Reader.finish = _
  rw [Reader.run?_append_of hstart]
  by_cases hne : blanks.toList = []
  · rw [hne, Reader.run?_nil, Option.bind_some, hr.finish_eq]
  · rw [hr.run?_of_spaces hne hblanks]
    rfl

theorem parse?_render {value : Json} (h : value.WellFormed) : parse? value.render = some value := by
  have hblanks := @parse?_render_append value "" h nofun
  rwa [String.append_empty] at hblanks

end AsmLayout.Json
