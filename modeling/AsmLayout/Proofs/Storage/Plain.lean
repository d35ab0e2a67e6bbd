import AsmLayout.Proofs.Names
import AsmLayout.Proofs.Token.Printing
import AsmLayout.Storage

/-!
# Storage operands without parentheses

The text of a storage operand divides in one way into a factor, the letters of a type code and the
rest (`StorageOperand.Parts`). Where neither factor nor length is in parentheses, these parts alone
say what is decoded (`StorageOperand.Reading`). Main statement: `StorageOperand.decode_plain`.
-/

namespace AsmLayout

/-- The characters are decimal digits whose value is the word `n`. -/
structure Text.IsCount (cs : List Char) (n : UInt32) : Prop where
  ne_nil : cs ≠ []
  digits : ∀ c ∈ cs, c.isDigit = true
  value : Text.digitsValue 10 cs = n.toNat

theorem Text.isCount_iff {cs : List Char} {n : UInt32} :
    Text.IsCount cs n ↔ ((Text.decimal? cs).bind fun n => uint32? n) = some n := by
  rw [Option.bind_eq_some_iff]
  constructor
  · rintro ⟨hne, hdigits, hvalue⟩
    exact ⟨_, Text.decimal?_eq_some_iff.2 ⟨hne, hdigits, rfl⟩,
      uint32?_eq_some_iff.2 (by rw [hvalue])⟩
  · rintro ⟨m, hm, hn⟩
    obtain ⟨hne, hdigits, hvalue⟩ := Text.decimal?_eq_some_iff.1 hm
    have hmn : (n.toNat : Int) = m := uint32?_eq_some_iff.1 hn
    exact ⟨hne, hdigits, by omega⟩

theorem Text.bind_uint32?_eq_none {cs : List Char} (h : ∀ n, ¬ Text.IsCount cs n) :
    ((Text.decimal? cs).bind fun n => uint32? n) = none :=
  Option.eq_none_iff_forall_ne_some.2 fun n hn => h n (Text.isCount_iff.2 hn)

theorem Text.isCount_toDigits (n : UInt32) : Text.IsCount (Nat.toDigits 10 n.toNat) n :=
  ⟨Nat.toDigits_ne_nil, fun _ hc => Nat.isDigit_of_mem_toDigits (by omega) (by omega) hc,
    Text.digitsValue_toDigits n.toNat⟩

namespace StorageOperand

/-- Of `run ++ rest`, `run` is the longest part at the front that is made of characters in `p`. -/
structure LongestRun (p : Char → Bool) (run rest : List Char) : Prop where
  all : ∀ c ∈ run, p c = true
  stops : ∀ c ∈ rest.head?, p c = false

theorem LongestRun.takeWhile {p : Char → Bool} {run rest : List Char} (h : LongestRun p run rest) :
    (run ++ rest).takeWhile p = run := by
  rw [List.takeWhile_append_of_pos h.all]
  cases rest with
  | nil => rw [List.takeWhile_nil, List.append_nil]
  | cons c cs =>
    rw [List.takeWhile_cons_of_neg (by simpa using h.stops c rfl), List.append_nil]

theorem LongestRun.dropWhile {p : Char → Bool} {run rest : List Char} (h : LongestRun p run rest) :
    (run ++ rest).dropWhile p = rest := by
  rw [List.dropWhile_append_of_pos h.all]
  cases rest with
  | nil => rfl
  | cons c cs => exact List.dropWhile_cons_of_neg (by simpa using h.stops c rfl)

theorem longestRun_takeWhile (p : Char → Bool) (text : List Char) :
    LongestRun p (text.takeWhile p) (text.dropWhile p) := by
  refine ⟨fun c hc => List.mem_takeWhile_imp hc, fun c hc => ?_⟩
  have hhead := List.head?_dropWhile_not p text
  rw [Option.mem_def.1 hc] at hhead
  simpa using hhead

/-- The text is the factor before its first letter, the letters of a type code and the rest. -/
structure Parts (text factor code rest : List Char) : Prop where
  text_eq : text = factor ++ (code ++ rest)
  factor : LongestRun (fun c => !c.isAlpha) factor (code ++ rest)
  code : LongestRun isCodeLetter code rest

theorem exists_parts (text : List Char) : ∃ factor code rest, Parts text factor code rest := by
  set letters := text.dropWhile fun c => !c.isAlpha with hletters
  refine ⟨text.takeWhile fun c => !c.isAlpha, _, _, ?_, ?_,
    longestRun_takeWhile isCodeLetter letters⟩
  · rw [List.takeWhile_append_dropWhile, hletters, List.takeWhile_append_dropWhile]
  · rw [List.takeWhile_append_dropWhile]
    exact longestRun_takeWhile _ text

/-- Neither the factor nor the length is in parentheses. -/
structure IsPlain (text rest : List Char) : Prop where
  factor : text.head? ≠ some '('
  length : ∀ tail, rest ≠ 'L' :: '(' :: tail ∧ rest ≠ 'l' :: '(' :: tail

theorem IsPlain.head_ne {text rest tail : List Char} {c : Char} (h : IsPlain text rest)
    (hc : c = 'L' ∨ c = 'l') (hrest : rest = c :: tail) : tail.head? ≠ some '(' := by
  intro hopen
  obtain ⟨tail, rfl⟩ := List.head?_eq_some_iff.1 hopen
  rcases hc with rfl | rfl
  · exact (h.length tail).1 hrest
  · exact (h.length tail).2 hrest

/-- The number of elements that a factor asks for: one if it is missing. -/
def IsDuplication (factor : List Char) (n : UInt32) : Prop :=
  factor = [] ∧ n = 1 ∨ Text.IsCount factor n

/-- What an operand without parentheses is decoded to, by its parts. -/
inductive Reading [TypeCatalog] (factor code rest : List Char) :
    Except DecodeError StorageOperand → Prop
  | badFactor (hne : factor ≠ []) (hbad : ∀ n, ¬ Text.IsCount factor n) :
      Reading factor code rest (.error (.invalidDuplicationFactor (String.ofList factor)))
  | badType {n : UInt32} (hfactor : IsDuplication factor n)
      (htype : TypeCatalog.ofCode? (String.ofList code) = none) :
      Reading factor code rest (.error (.invalidDataType (Text.upperAscii (String.ofList code))))
  | badLength {n : UInt32} {type : TypeCode} {c : Char} {digits tail : List Char}
      (hfactor : IsDuplication factor n)
      (htype : TypeCatalog.ofCode? (String.ofList code) = some type)
      (hc : c = 'L' ∨ c = 'l') (hrest : rest = c :: (digits ++ tail))
      (hdigits : LongestRun Char.isDigit digits tail) (hbad : ∀ m, ¬ Text.IsCount digits m) :
      Reading factor code rest (.error (.length (.notANumber (String.ofList digits))))
  | given {n m : UInt32} {type : TypeCode} {c : Char} {digits tail : List Char}
      (hfactor : IsDuplication factor n)
      (htype : TypeCatalog.ofCode? (String.ofList code) = some type)
      (hc : c = 'L' ∨ c = 'l') (hrest : rest = c :: (digits ++ tail))
      (hdigits : LongestRun Char.isDigit digits tail) (hm : Text.IsCount digits m) :
      Reading factor code rest (.ok ⟨n, type, m⟩)
  | default {n : UInt32} {type : TypeCode} (hfactor : IsDuplication factor n)
      (htype : TypeCatalog.ofCode? (String.ofList code) = some type)
      (hrest : ∀ c ∈ rest.head?, c ≠ 'L' ∧ c ≠ 'l') :
      Reading factor code rest (.ok ⟨n, type, TypeCatalog.byteSize type⟩)

section

variable [TypeCatalog] {L : Lookups} {text factor code rest operand digits tail : List Char}
  {type : TypeCode} {n : UInt32}

theorem exists_reading (factor code rest : List Char) : ∃ r, Reading factor code rest r := by
  have hfactor : (∃ n, IsDuplication factor n) ∨ factor ≠ [] ∧ ∀ n, ¬ Text.IsCount factor n := by
    by_cases hnil : factor = []
    · exact .inl ⟨1, .inl ⟨hnil, rfl⟩⟩
    by_cases hcount : ∃ n, Text.IsCount factor n
    · obtain ⟨n, hn⟩ := hcount
      exact .inl ⟨n, .inr hn⟩
    · exact .inr ⟨hnil, not_exists.1 hcount⟩
  obtain ⟨n, hn⟩ | ⟨hne, hbad⟩ := hfactor
  swap
  · exact ⟨_, .badFactor hne hbad⟩
  cases htype : TypeCatalog.ofCode? (String.ofList code) with
  | none => exact ⟨_, .badType hn htype⟩
  | some type =>
    by_cases hletter : ∃ c tail, rest = c :: tail ∧ (c = 'L' ∨ c = 'l')
    · obtain ⟨c, text, rfl, hc⟩ := hletter
      have hrun := longestRun_takeWhile Char.isDigit text
      have hrest : c :: text =
          c :: (text.takeWhile Char.isDigit ++ text.dropWhile Char.isDigit) := by
        rw [List.takeWhile_append_dropWhile]
      by_cases hcount : ∃ m, Text.IsCount (text.takeWhile Char.isDigit) m
      · obtain ⟨m, hm⟩ := hcount
        exact ⟨_, .given hn htype hc hrest hrun hm⟩
      · exact ⟨_, .badLength hn htype hc hrest hrun (not_exists.1 hcount)⟩
    · refine ⟨_, .default hn htype fun c hc => not_or.1 fun hl => hletter ?_⟩
      cases rest with
      | nil => cases hc
      | cons d tail =>
        cases hc
        exact ⟨c, tail, rfl, hl⟩

theorem Parts.takeDuplication_eq (h : Parts text factor code rest)
    (hplain : text.head? ≠ some '(') :
    takeDuplication L text =
      if factor.isEmpty then .ok (1, code ++ rest)
      else match (Text.decimal? factor).bind fun n => uint32? n with
        | some count => .ok (count, code ++ rest)
        | none => .error (.invalidDuplicationFactor (String.ofList factor)) := by
  rewrite [takeDuplication, if_neg hplain, h.text_eq, h.factor.takeWhile, h.factor.dropWhile]
  rfl

theorem Parts.takeDuplication (h : Parts text factor code rest) (hplain : text.head? ≠ some '(')
    (hn : IsDuplication factor n) :
    StorageOperand.takeDuplication L text = .ok (n, code ++ rest) := by
  rw [h.takeDuplication_eq hplain]
  rcases hn with ⟨rfl, rfl⟩ | hn
  · rfl
  · rw [Text.isCount_iff.1 hn, if_neg (by simpa using hn.ne_nil)]

theorem Parts.takeDuplication_bad (h : Parts text factor code rest)
    (hplain : text.head? ≠ some '(') (hne : factor ≠ []) (hbad : ∀ n, ¬ Text.IsCount factor n) :
    StorageOperand.takeDuplication L text =
      .error (.invalidDuplicationFactor (String.ofList factor)) := by
  rw [h.takeDuplication_eq hplain, Text.bind_uint32?_eq_none hbad, if_neg (by simpa using hne)]

theorem LongestRun.takeType (h : LongestRun isCodeLetter code rest)
    (htype : TypeCatalog.ofCode? (String.ofList code) = some type) :
    takeType (code ++ rest) = .ok (type, rest) := by
  rw [StorageOperand.takeType, h.takeWhile, h.dropWhile, htype]

theorem LongestRun.takeType_bad (h : LongestRun isCodeLetter code rest)
    (htype : TypeCatalog.ofCode? (String.ofList code) = none) :
    StorageOperand.takeType (code ++ rest) =
      .error (.invalidDataType (Text.upperAscii (String.ofList code))) := by
  rw [StorageOperand.takeType, h.takeWhile, htype]

theorem takeLength_letter {c : Char} (hc : c = 'L' ∨ c = 'l') :
    takeLength L operand type (c :: text) =
      (lengthModifier L operand text).mapError .length := by
  rcases hc with rfl | rfl <;> rfl

theorem takeLength_default (h : ∀ c ∈ rest.head?, c ≠ 'L' ∧ c ≠ 'l') :
    takeLength L operand type rest = .ok (TypeCatalog.byteSize type) := by
  unfold takeLength
  split
  · exact absurd rfl (h _ rfl).1
  · exact absurd rfl (h _ rfl).2
  · rfl

theorem lengthModifier_digits (h : LongestRun Char.isDigit digits tail)
    (hplain : (digits ++ tail).head? ≠ some '(') :
    lengthModifier L operand (digits ++ tail) =
      match (Text.decimal? digits).bind fun n => uint32? n with
      | some length => .ok length
      | none => .error (.notANumber (String.ofList digits)) := by
  rewrite [lengthModifier, if_neg hplain, h.takeWhile]
  rfl

/-- What is decoded once the duplication is taken and a type code follows. -/
theorem decode_of_taken {operand : String}
    (hfactor : takeDuplication L (Text.strip operand.toList) = .ok (n, code ++ rest))
    (hcode : LongestRun isCodeLetter code rest)
    (htype : TypeCatalog.ofCode? (String.ofList code) = some type) :
    decode L operand = (takeLength L (Text.strip operand.toList) type rest).map
      fun length => ⟨n, type, length⟩ := by
  rw [decode, hfactor]
  show (takeType (code ++ rest) >>= fun x => _) = _
  rw [hcode.takeType htype]
  cases htake : takeLength L (Text.strip operand.toList) type rest <;>
    simp only [bind, Except.bind, htake, Except.map]

theorem Parts.decode_of_reading {operand : String} {r : Except DecodeError StorageOperand}
    (h : Parts (Text.strip operand.toList) factor code rest)
    (hplain : IsPlain (Text.strip operand.toList) rest) (hr : Reading factor code rest r) :
    decode L operand = r := by
  cases hr with
  | badFactor hne hbad =>
    rw [decode, h.takeDuplication_bad hplain.factor hne hbad]
    rfl
  | badType hn htype =>
    -- only the factor can be taken
    rw [decode, h.takeDuplication hplain.factor hn]
    show (StorageOperand.takeType (code ++ rest) >>= fun x => _) = _
    rw [h.code.takeType_bad htype]
    rfl
  | @badLength n type c digits tail hn htype hc hrest hdigits hbad =>
    rw [decode_of_taken (h.takeDuplication hplain.factor hn) h.code htype, hrest,
      takeLength_letter hc, lengthModifier_digits hdigits (hplain.head_ne hc hrest),
      Text.bind_uint32?_eq_none hbad]
    rfl
  | given hn htype hc hrest hdigits hm =>
    rw [decode_of_taken (h.takeDuplication hplain.factor hn) h.code htype, hrest,
      takeLength_letter hc, lengthModifier_digits hdigits (hplain.head_ne hc hrest),
      Text.isCount_iff.1 hm]
    rfl
  | default hn htype hrest =>
    rw [decode_of_taken (h.takeDuplication hplain.factor hn) h.code htype, takeLength_default hrest]
    rfl

end

/-! ### Writing an operand -/

/-- The operand with all its parts, as text. -/
def text (op : StorageOperand) : String :=
  toString op.duplication ++ op.type.code ++ "L" ++ toString op.length

theorem toList_toString (n : UInt32) : (toString n).toList = Nat.toDigits 10 n.toNat := by
  have htext : toString n = String.ofList (Nat.toDigits 10 n.toNat) := rfl
  rw [htext, String.toList_ofList]

theorem toList_text (op : StorageOperand) : op.text.toList =
    Nat.toDigits 10 op.duplication.toNat ++ (op.type.code.toList ++ ['L']) ++
      Nat.toDigits 10 op.length.toNat := by
  rw [text, String.toList_append, String.toList_append, String.toList_append, toList_toString,
    toList_toString, List.append_assoc, List.append_assoc, List.append_assoc, List.append_assoc]
  rfl

theorem isAlpha_of_isDigit {c : Char} (h : c.isDigit = true) : c.isAlpha = false :=
  Text.forall_ascii (P := fun c => c.isDigit = true → c.isAlpha = false) (by decide)
    (isNameChar_ascii (isNameChar_of_isDigit h)) h

theorem isCodeLetter_toUpper (c : Char) : isCodeLetter c.toUpper = isCodeLetter c :=
  Text.comp_toUpper (by decide) c

theorem isCodeLetter_of_mem_code {type : TypeCode} :
    ∀ c ∈ type.code.toList, isCodeLetter c = true := by
  cases type <;> simp [TypeCode.code, isCodeLetter]

theorem isNameChar_of_isCodeLetter {c : Char} (h : isCodeLetter c = true) : isNameChar c = true := by
  simp only [isCodeLetter, Bool.and_eq_true] at h
  simp [isNameChar, Char.isAlphanum, h.1.1]

theorem ofCode?_code (type : TypeCode) : TypeCode.ofCode? type.code = some type := by
  cases type <;> decide

theorem stripped_text (op : StorageOperand) : Text.Stripped op.text.toList := by
  have hname : ∀ c ∈ op.text.toList, isNameChar c = true := by
    have hdigit : ∀ n : UInt32, ∀ c ∈ Nat.toDigits 10 n.toNat, isNameChar c = true := fun n c hc =>
      isNameChar_of_isDigit ((Text.isCount_toDigits n).digits c hc)
    intro c hc
    simp only [toList_text, List.mem_append, List.mem_singleton] at hc
    rcases hc with (hc | hc | rfl) | hc
    · exact hdigit op.duplication c hc
    · exact isNameChar_of_isCodeLetter (isCodeLetter_of_mem_code c hc)
    · decide
    · exact hdigit op.length c hc
  exact ⟨fun hne => isBlank_of_isNameChar (hname _ (List.head_mem hne)),
    fun hne => isBlank_of_isNameChar (hname _ (List.getLast_mem hne))⟩

theorem head?_toDigits_append (n : UInt32) (tail : List Char) :
    (Nat.toDigits 10 n.toNat ++ tail).head? ≠ some '(' := by
  have hdigits := (Text.isCount_toDigits n).digits
  cases hn : Nat.toDigits 10 n.toNat with
  | nil => exact absurd hn Nat.toDigits_ne_nil
  | cons d ds =>
    rintro ⟨⟩
    rw [hn] at hdigits
    exact absurd (hdigits '(' List.mem_cons_self) (by decide)

theorem parts_append {factor code rest : List Char} (hfactor : ∀ c ∈ factor, c.isAlpha = false)
    (hcode : ∀ c ∈ code, isCodeLetter c = true) :
    Parts (factor ++ (code ++ 'L' :: rest)) factor code ('L' :: rest) := by
  refine ⟨rfl, ⟨fun c hc => by rw [hfactor c hc]; rfl, fun c hc => ?_⟩, hcode, ?_⟩
  · cases code with
    | nil => cases hc; rfl
    | cons d ds =>
      cases hc
      have hletter := hcode c List.mem_cons_self
      simp only [isCodeLetter, Bool.and_eq_true] at hletter
      rw [hletter.1.1]
      rfl
  · rintro c ⟨⟩
    rfl

theorem parts_text (op : StorageOperand) (tail : List Char) :
    Parts (op.text.toList ++ tail) (Nat.toDigits 10 op.duplication.toNat) op.type.code.toList
      ('L' :: (Nat.toDigits 10 op.length.toNat ++ tail)) := by
  have htext : op.text.toList ++ tail = Nat.toDigits 10 op.duplication.toNat ++
      (op.type.code.toList ++ 'L' :: (Nat.toDigits 10 op.length.toNat ++ tail)) := by
    simp [toList_text]
  rw [htext]
  exact parts_append (fun c hc => isAlpha_of_isDigit ((Text.isCount_toDigits _).digits c hc))
    isCodeLetter_of_mem_code

theorem head?_dropTrailing {cs : List Char} {c : Char}
    (h : c ∈ (Text.dropTrailing cs).head?) : c ∈ cs.head? := by
  obtain ⟨tail, htail⟩ : Text.dropTrailing cs <+: cs := List.rdropWhile_prefix Text.isBlank cs
  rw [← htail, List.head?_append, Option.mem_def.1 h]
  rfl

/-- Where no parenthesis opens a factor or a length, the parts of the text alone decide what is
decoded. An operand written with all its parts is read back, whatever else follows, where the catalog
knows its type by the code; the standard one knows every type so. -/
theorem decode_plain :
    (∀ text, ∃ factor code rest, Parts text factor code rest) ∧
    (∀ type : TypeCode, TypeCode.ofCode? type.code = some type) ∧
    ∀ [TypeCatalog],
      (∀ (operand : String) (factor code rest : List Char),
        Parts (Text.strip operand.toList) factor code rest →
        IsPlain (Text.strip operand.toList) rest →
        ∀ L r, decode L operand = r ↔ Reading factor code rest r) ∧
      ∀ (op : StorageOperand) (tail : String), (∀ c ∈ tail.toList.head?, c.isDigit = false) →
        TypeCatalog.ofCode? op.type.code = some op.type →
        ∀ L, decode L (op.text ++ tail) = .ok op := by
  refine ⟨exists_parts, ofCode?_code, ?_⟩
  intro catalog
  refine ⟨fun operand factor code rest hparts hplain L r => ?_, fun op tail htail hcode L => ?_⟩
  · refine ⟨?_, hparts.decode_of_reading hplain⟩
    -- there is a reading, and it says what is decoded
    rintro rfl
    obtain ⟨r, hr⟩ := exists_reading factor code rest
    rw [hparts.decode_of_reading hplain hr]
    exact hr
  · have hstrip : Text.strip (op.text ++ tail).toList =
        op.text.toList ++ Text.dropTrailing tail.toList := by
      rw [String.toList_append]
      exact (stripped_text op).strip_append (by simp [toList_text]) _
    have hparts := parts_text op (Text.dropTrailing tail.toList)
    rw [← hstrip] at hparts
    have hplain : IsPlain (Text.strip (op.text ++ tail).toList)
        ('L' :: (Nat.toDigits 10 op.length.toNat ++ Text.dropTrailing tail.toList)) := by
      refine ⟨?_, fun rest => ⟨fun hrest => ?_, fun hrest => nomatch hrest⟩⟩
      · rw [hparts.text_eq]
        exact head?_toDigits_append op.duplication _
      · exact head?_toDigits_append op.length _ (by rw [List.tail_eq_of_cons_eq hrest]; rfl)
    have hdigits : LongestRun Char.isDigit (Nat.toDigits 10 op.length.toNat)
        (Text.dropTrailing tail.toList) :=
      ⟨(Text.isCount_toDigits op.length).digits, fun c hc => htail c (head?_dropTrailing hc)⟩
    exact hparts.decode_of_reading hplain
      (.given (.inr (Text.isCount_toDigits op.duplication))
        (by rw [String.ofList_toList]; exact hcode) (.inl rfl) rfl hdigits
        (Text.isCount_toDigits op.length))

theorem decode_plain_leadingZero :
    Parts (Text.strip "03CL2,X".toList) ['0', '3'] ['C'] ['L', '2', ',', 'X'] ∧
    IsPlain (Text.strip "03CL2,X".toList) ['L', '2', ',', 'X'] ∧
    (∀ c ∈ "'AB'".toList.head?, c.isDigit = false) ∧
    ∀ L, decode L "03CL2,X" = .ok ⟨3, .c, 2⟩ ∧
      decode L (text ⟨3, .c, 2⟩ ++ "'AB'") = .ok ⟨3, .c, 2⟩ := by
  have hparts : Parts (Text.strip "03CL2,X".toList) ['0', '3'] ['C'] ['L', '2', ',', 'X'] :=
    ⟨rfl, ⟨by simp, by simp⟩, ⟨by simp [isCodeLetter], by simp [isCodeLetter]⟩⟩
  have hplain : IsPlain (Text.strip "03CL2,X".toList) ['L', '2', ',', 'X'] :=
    ⟨by decide, fun tail => ⟨nofun, nofun⟩⟩
  have htail : ∀ c ∈ "'AB'".toList.head?, c.isDigit = false := by simp
  have hdigits : LongestRun Char.isDigit ['2'] [',', 'X'] := ⟨by simp, by simp⟩
  have hreading : Reading ['0', '3'] ['C'] ['L', '2', ',', 'X'] (.ok ⟨3, .c, 2⟩) :=
    .given (.inr ⟨by simp, by simp, rfl⟩)
      (by decide) (.inl rfl) rfl hdigits ⟨by simp, by simp, rfl⟩
  obtain ⟨-, hcodes, hdecode⟩ := decode_plain
  refine ⟨hparts, hplain, htail, fun L => ⟨?_, ?_⟩⟩
  · exact (hdecode.1 "03CL2,X" _ _ _ hparts hplain L _).2 hreading
  · exact hdecode.2 ⟨3, .c, 2⟩ "'AB'" htail (hcodes .c) L

end StorageOperand
end AsmLayout
