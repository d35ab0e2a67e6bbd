import AsmLayout.Proofs.Expr.LetterCase
import AsmLayout.Proofs.Layout.Conclusions
import AsmLayout.Proofs.Storage.Plain

/-!
# Letter case in records

Under a table that folds case, records that differ in the case of ASCII letters do the same to a
pass. Main statements: `StorageOperand.decode_toUpper` and `Pass.SameButCase.run`.
-/

namespace AsmLayout

namespace StorageOperand

variable {L : Lookups} {text : List Char}

theorem evaluateCount_toUpper (hL : L.symbols.IgnoresCase) (outOfRange : Int64 → Failure)
    (text : List Char) :
    Alike EvalError.kind Eq (evaluateCount L outOfRange text)
      (evaluateCount L outOfRange (text.map Char.toUpper)) := by
  have h := Expr.evaluate_toUpper hL (String.ofList text)
  rw [Text.upperAscii_ofList] at h
  refine h.bind fun o o' ho => ?_
  rcases ho.cases with rfl | ⟨t, t', type, rfl, rfl⟩
  · exact .refl Eq.refl _
  · exact .error rfl

theorem afterLengthCode_toUpper (before : List Char) :
    afterLengthCode (before.map Char.toUpper) = afterLengthCode before := by
  match before with
  | [] => rfl
  | [c] => exact lengthLetter_toUpper c
  | c :: d :: _ =>
    show ((c.toUpper == 'L' || c.toUpper == 'l') && !isNameChar d.toUpper) = _
    rw [lengthLetter_toUpper, isNameChar_toUpper]
    rfl

theorem closeGroup_toUpper (depth : Nat) (quoted : Bool) (before cs : List Char) :
    closeGroup depth quoted (before.map Char.toUpper) (cs.map Char.toUpper) =
      (closeGroup depth quoted before cs).map
        (Prod.map (List.map Char.toUpper) (List.map Char.toUpper)) := by
  induction cs generalizing depth quoted before with
  | nil => rfl
  | cons c cs ih =>
    -- every way on puts `c` before what is still to be read
    have hnext := fun depth quoted => ih depth quoted (c :: before)
    have hsame : ∀ {d : Char}, d.isAlpha = false → (c.toUpper == d) = (c == d) := Text.toUpper_beq
    rw [List.map_cons]
    unfold closeGroup
    rw [hsame (by decide), hsame (by decide), hsame (by decide), afterLengthCode_toUpper]
    split
    · exact hnext _ _
    split
    · exact hnext _ _
    split
    · exact hnext _ _
    split
    · cases depth with
      | zero => rfl
      | succ depth =>
        cases depth with
        | zero => simp
        | succ depth => exact hnext _ _
    · exact hnext _ _

theorem splitGroup_toUpper (text : List Char) :
    splitGroup (text.map Char.toUpper) = (splitGroup text).map
      (Prod.map (List.map Char.toUpper) (List.map Char.toUpper)) :=
  closeGroup_toUpper 0 false [] text

theorem head?_toUpper : (text.map Char.toUpper).head? = some '(' ↔ text.head? = some '(' := by
  cases text with
  | nil => exact Iff.rfl
  | cons c cs =>
    rw [List.map_cons, List.head?_cons, List.head?_cons, Option.some.injEq, Option.some.injEq]
    exact Text.toUpper_eq_iff (by decide)

/-- The same value, and the rest of the text in upper case. -/
def RestUpper {α : Type} (a b : α × List Char) : Prop := b = (a.1, a.2.map Char.toUpper)

theorem takeDuplication_toUpper (hL : L.symbols.IgnoresCase) (text : List Char) :
    Alike DecodeError.kind RestUpper (takeDuplication L text)
      (takeDuplication L (text.map Char.toUpper)) := by
  unfold takeDuplication
  by_cases hhead : text.head? = some '('
  · rw [if_pos hhead, if_pos (head?_toUpper.2 hhead), splitGroup_toUpper]
    cases splitGroup text with
    | none => exact .error rfl
    | some group =>
      obtain ⟨group, rest⟩ := group
      have h := evaluateCount_toUpper hL .duplicationOutOfRange group
      dsimp only [Option.map_some, Prod.map_apply]
      generalize evaluateCount L .duplicationOutOfRange group = r at h
      generalize evaluateCount L .duplicationOutOfRange (group.map Char.toUpper) = r' at h
      cases h with
      | ok h => subst h; exact .ok rfl
      | error h => exact .error rfl
  · rw [if_neg hhead, if_neg (head?_toUpper.not.2 hhead)]
    dsimp only
    have hletter : ∀ c : Char, (!c.toUpper.isAlpha) = !c.isAlpha := fun c =>
      congrArg not (Char.isAlpha_toUpper_eq_isAlpha c)
    rw [Text.takeWhile_toUpper hletter, Text.dropWhile_toUpper hletter, List.isEmpty_map,
      Text.decimal?_toUpper]
    split
    · exact .ok rfl
    · split
      · exact .ok rfl
      · exact .error rfl

theorem takeType_toUpper (text : List Char) :
    Alike DecodeError.kind RestUpper (takeType text) (takeType (text.map Char.toUpper)) := by
  unfold takeType
  dsimp only
  rw [Text.takeWhile_toUpper isCodeLetter_toUpper, Text.dropWhile_toUpper isCodeLetter_toUpper,
    TypeCatalog.ofCode?_standard, TypeCatalog.ofCode?_standard, TypeCode.ofCode?_toUpper]
  split
  · exact .ok rfl
  · exact .error (Eq.refl ErrorKind.invalidDataType)

theorem lengthModifier_toUpper (hL : L.symbols.IgnoresCase) (operand operand' text : List Char) :
    Alike EvalError.kind Eq (lengthModifier L operand text)
      (lengthModifier L operand' (text.map Char.toUpper)) := by
  unfold lengthModifier
  by_cases hhead : text.head? = some '('
  · rw [if_pos hhead, if_pos (head?_toUpper.2 hhead), splitGroup_toUpper]
    cases splitGroup text with
    | none => exact .error rfl
    | some group => exact evaluateCount_toUpper hL .lengthOutOfRange group.1
  · rw [if_neg hhead, if_neg (head?_toUpper.not.2 hhead)]
    dsimp only
    rw [Text.takeWhile_toUpper Text.isDigit_toUpper, Text.decimal?_toUpper]
    split
    · exact .ok rfl
    · exact .error rfl

theorem takeLength_cons (operand : List Char) (type : TypeCode) (c : Char) (cs : List Char) :
    takeLength L operand type (c :: cs) = if c == 'L' || c == 'l' then
      (lengthModifier L operand cs).mapError .length else .ok (TypeCatalog.byteSize type) := by
  unfold takeLength
  split
  · next heq => cases heq; rfl
  · next heq => cases heq; rfl
  · next hL hl =>
    rw [if_neg]
    simp only [Bool.or_eq_true, beq_iff_eq]
    rintro (rfl | rfl)
    · exact hL _ rfl
    · exact hl _ rfl

theorem takeLength_toUpper (hL : L.symbols.IgnoresCase) (operand operand' : List Char)
    (type : TypeCode) (text : List Char) :
    Alike DecodeError.kind Eq (takeLength L operand type text)
      (takeLength L operand' type (text.map Char.toUpper)) := by
  cases text with
  | nil => exact .ok rfl
  | cons c cs =>
    rw [List.map_cons, takeLength_cons, takeLength_cons, lengthLetter_toUpper]
    split
    · exact (lengthModifier_toUpper hL operand operand' cs).mapError _ fun _ _ h => h
    · exact .ok rfl

/-- A storage operand reserves the same in either case, or fails in the same way. -/
theorem decode_toUpper (hL : L.symbols.IgnoresCase) (operand : String) :
    Alike DecodeError.kind Eq (decode L operand) (decode L (Text.upperAscii operand)) := by
  unfold decode
  dsimp only
  rw [Text.upperAscii, String.toList_ofList, Text.strip_toUpper]
  refine (takeDuplication_toUpper hL _).bind ?_
  rintro ⟨duplication, rest⟩ _ rfl
  refine (takeType_toUpper rest).bind ?_
  rintro ⟨type, rest⟩ _ rfl
  refine (takeLength_toUpper hL _ _ type rest).bind ?_
  rintro length _ rfl
  exact .ok rfl

end StorageOperand

/-! ### Names in a table that folds case -/

namespace Text

theorem trim_upperAscii (s : String) : trim (upperAscii s) = upperAscii (trim s) := by
  rw [trim, trim, upperAscii_ofList, upperAscii, String.toList_ofList, strip_toUpper]

theorem upper_upperAscii (s : String) : upper (upperAscii s) = upper s := by
  have hchar : ∀ c : Char, upperChar c.toUpper = upperChar c := comp_toUpper (by decide)
  rw [upper, upper, upperAscii, String.toList_ofList, List.flatMap_map]
  simp only [hchar]

end Text

namespace SymbolTable

variable {t : SymbolTable} {scope name name' : String}

theorem normalize_upperAscii (hfold : t.foldCase = true) (name : String) :
    t.normalize (Text.upperAscii name) = t.normalize name := by
  rw [normalize, normalize, normalizeName, normalizeName, if_pos hfold, if_pos hfold,
    Text.trim_upperAscii, Text.upper_upperAscii]

theorem normalize_sameAsciiLetters (hfold : t.foldCase = true)
    (h : Text.sameAsciiLetters name name' = true) : t.normalize name' = t.normalize name := by
  rw [← normalize_upperAscii hfold name', ← eq_of_beq h, normalize_upperAscii hfold]

theorem qualified?_upperAscii (name : String) :
    qualified? (Text.upperAscii name) =
      (qualified? name).map (Prod.map Text.upperAscii Text.upperAscii) := by
  have hpoint : ∀ c : Char, (c.toUpper != '.') = (c != '.') := fun c =>
    Text.toUpper_bne (by decide)
  unfold qualified?
  dsimp only
  rw [Text.upperAscii, String.toList_ofList, Text.takeWhile_toUpper hpoint,
    Text.dropWhile_toUpper hpoint, List.isEmpty_map]
  generalize name.toList.takeWhile (· != '.') = context
  cases name.toList.dropWhile (· != '.') with
  | nil => rfl
  | cons point label =>
    cases label with
    | nil => rfl
    | cons c label =>
      simp only [List.map_cons]
      split
      · rfl
      · rw [Option.map_some, Prod.map_apply, Text.upperAscii_ofList, Text.upperAscii_ofList,
          List.map_cons]

theorem lookup?_congr {context context' : String} (hcontext : t.normalize context' = t.normalize context)
    (hname : t.normalize name' = t.normalize name) :
    t.lookup? context' name' = t.lookup? context name := by
  rw [lookup?, lookup?, hcontext, hname]

theorem resolve?_upperAscii (hfold : t.foldCase = true) (scope name : String) :
    t.resolve? scope (Text.upperAscii name) = t.resolve? scope name := by
  unfold resolve?
  rw [qualified?_upperAscii]
  cases qualified? name with
  | none => exact lookup?_congr rfl (normalize_upperAscii hfold name)
  | some q => exact lookup?_congr (normalize_upperAscii hfold q.1) (normalize_upperAscii hfold q.2)

theorem symbolsFrom_ignoresCase (hfold : t.foldCase = true) (scope : String) :
    (t.symbolsFrom scope).IgnoresCase := by
  constructor
  · intro name
    simp only [symbolsFrom, resolve?_upperAscii hfold]
  · intro name
    simp only [symbolsFrom, resolve?_upperAscii hfold]

theorem define_congr {context : String} {displacement : Int64} {length : UInt32}
    (h : t.normalize name' = t.normalize name) :
    t.define context name' displacement length = t.define context name displacement length := by
  unfold define
  rw [h]

end SymbolTable

/-- The same directive, with labels and operands that differ in the case of ASCII letters only. -/
structure Record.SameButCase (r r' : Record) : Prop where
  directive : r'.directive = r.directive
  label : Option.Rel (fun l l' => Text.sameAsciiLetters l l' = true) r.label r'.label
  operand : Text.sameAsciiLetters r.operand r'.operand = true

structure Deferred.SameButCase (d d' : Deferred) : Prop where
  record : d.record.SameButCase d'.record
  counter : d'.counter = d.counter

theorem EvalError.kind_of_isForwardReference {e : EvalError} (h : e.isForwardReference = true) :
    e.kind = .invalidSymbolKey ∨ e.kind = .invalidLengthKey := by
  cases e with
  | invalidSymbolKey name => exact .inl rfl
  | invalidLengthKey name => exact .inr rfl
  | _ => cases h

/-- The kind of a failure says whether it is an undefined name. -/
theorem RecordError.isForwardReference_iff {e : RecordError} : e.isForwardReference = true ↔
    e.kind = .invalidSymbolKey ∨ e.kind = .invalidLengthKey := by
  refine ⟨fun h => ?_, isForwardReference_of_kind⟩
  cases e with
  | evaluation e => exact EvalError.kind_of_isForwardReference h
  | decoding e =>
    cases e with
    | length e => exact EvalError.kind_of_isForwardReference h
    | _ => cases h
  | negativeOrigin target => cases h

namespace Pass

variable {p p' : Pass} {r r' : Record} {d d' : Deferred} {counter : Int64}

/-- Passes that have read records that are the same but for letter case. Registers do not matter,
and diagnostics agree in their kinds. -/
structure SameButCase (p p' : Pass) : Prop where
  foldCase : p.table.foldCase = true
  context : p'.context = p.context
  table : p'.table = p.table
  counter : p'.counter = p.counter
  highWater : p'.highWater = p.highWater
  deferredEqu : List.Forall₂ Deferred.SameButCase p.deferredEqu p'.deferredEqu
  deferredStorage : List.Forall₂ Deferred.SameButCase p.deferredStorage p'.deferredStorage
  kinds : p.diagnostics.map Diagnostic.kind = p'.diagnostics.map Diagnostic.kind

namespace SameButCase

theorem ignoresCase (h : p.SameButCase p') (counter : Int64) :
    (p.lookups counter).symbols.IgnoresCase :=
  SymbolTable.symbolsFrom_ignoresCase h.foldCase p.context

theorem symbols (h : p.SameButCase p') (counter : Int64) :
    (p'.lookups counter).symbols = (p.lookups counter).symbols := by
  show p'.table.symbolsFrom p'.context = p.table.symbolsFrom p.context
  rw [h.table, h.context]

theorem storage (h : p.SameButCase p') {operand operand' : String}
    (ho : Text.sameAsciiLetters operand operand' = true) (counter : Int64) :
    Alike RecordError.kind Eq (p.storage operand counter) (p'.storage operand' counter) := by
  have hL := h.ignoresCase counter
  have hsame : StorageOperand.decode (p'.lookups counter) operand' =
      StorageOperand.decode (p.lookups counter) operand' :=
    StorageOperand.decode_congr rfl (fun name _ => by rw [h.symbols]) fun name _ => by rw [h.symbols]
  have hdecode : Alike DecodeError.kind Eq (StorageOperand.decode (p.lookups counter) operand)
      (StorageOperand.decode (p'.lookups counter) operand') := by
    have hupper := StorageOperand.decode_toUpper hL operand
    rw [eq_of_beq ho] at hupper
    rw [hsame]
    exact hupper.trans (fun _ _ _ => Eq.trans)
      ((StorageOperand.decode_toUpper hL operand').symm fun _ _ => Eq.symm)
  refine (hdecode.mapError RecordError.decoding fun _ _ h => h).bind ?_
  rintro op _ rfl
  exact .refl Eq.refl _

theorem number (h : p.SameButCase p') {operand operand' : String}
    (ho : Text.sameAsciiLetters operand operand' = true) (counter : Int64) :
    Alike RecordError.kind Eq (p.number operand counter) (p'.number operand' counter) := by
  have hsame : Expr.evaluate (p'.lookups counter) operand' =
      Expr.evaluate (p.lookups counter) operand' :=
    Expr.evaluate_congr (fun _ => rfl) (fun name _ => by rw [h.symbols])
      fun name _ => by rw [h.symbols]
  have hvalue := Expr.evaluate_sameAsciiLetters (h.ignoresCase counter) (eq_of_beq ho)
  rw [← hsame] at hvalue
  refine (hvalue.mapError RecordError.evaluation fun _ _ h => h).bind fun o o' ho => ?_
  rcases ho.cases with rfl | ⟨t, t', type, rfl, rfl⟩
  · exact .refl Eq.refl _
  · exact .error rfl

theorem origin (h : p.SameButCase p') {operand operand' : String}
    (ho : Text.sameAsciiLetters operand operand' = true) (counter : Int64) :
    Alike RecordError.kind Eq (p.origin operand counter) (p'.origin operand' counter) := by
  have hblank : Text.isBlankText operand' = Text.isBlankText operand := by
    have hupper : ∀ s, Text.isBlankText (Text.upperAscii s) = Text.isBlankText s := fun s => by
      rw [Text.isBlankText, Text.upperAscii, String.toList_ofList,
        Text.all_toUpper Text.isBlank_toUpper, Text.isBlankText]
    rw [← hupper operand', ← eq_of_beq ho, hupper]
  unfold Pass.origin
  rw [hblank, h.highWater]
  split
  · exact .ok rfl
  · refine (h.number ho counter).bind ?_
    rintro target _ rfl
    exact .refl Eq.refl _

/-- The records do the same, or fail in the same way. -/
theorem effect (h : p.SameButCase p') (hr : r.SameButCase r') (counter : Int64) :
    Alike RecordError.kind Eq (p.effect r counter) (p'.effect r' counter) := by
  unfold Pass.effect
  rw [hr.directive]
  cases r.directive with
  | ds => exact h.storage hr.operand counter
  | dc => exact h.storage hr.operand counter
  | equ =>
    refine (h.number hr.operand counter).bind ?_
    rintro n _ rfl
    exact .ok rfl
  | org =>
    refine (h.origin hr.operand counter).bind ?_
    rintro target _ rfl
    exact .ok rfl
  | dsect => exact .ok rfl

/-! ### Steps -/

theorem define (h : p.SameButCase p') {label label' : Option String}
    (hl : Option.Rel (fun l l' => Text.sameAsciiLetters l l' = true) label label')
    (displacement : Int64) (length : UInt32) :
    (p.define label displacement length).SameButCase (p'.define label' displacement length) := by
  cases hl with
  | none => exact h
  | @some l l' hl =>
    have htable : p'.table.define p'.context l' displacement length =
        p.table.define p.context l displacement length := by
      rw [h.table, h.context,
        SymbolTable.define_congr (SymbolTable.normalize_sameAsciiLetters h.foldCase hl)]
    exact ⟨by rw [← h.foldCase]; exact SymbolTable.foldCase_define, h.context, htable, h.counter,
      h.highWater, h.deferredEqu, h.deferredStorage, h.kinds⟩

theorem markOrigin (h : p.SameButCase p') (hr : r.SameButCase r') :
    (p.markOrigin r).SameButCase (p'.markOrigin r') := by
  unfold Pass.markOrigin
  rw [hr.directive, h.counter]
  split
  · exact h.define hr.label _ _
  · exact h

theorem settle (h : p.SameButCase p') (hr : r.SameButCase r') (effect : Effect) :
    (p.settle r effect).SameButCase (p'.settle r' effect) := by
  unfold Pass.settle
  split
  · exact h.define hr.label _ _
  · exact h

theorem advance (h : p.SameButCase p') (effect : Effect) :
    (p.advance effect).SameButCase (p'.advance effect) := by
  unfold Pass.advance
  split
  · have hmark : ∀ c, (p'.moveTo c).highWater = (p.moveTo c).highWater := fun c => by
      simp only [moveTo, h.highWater]
    exact ⟨h.foldCase, h.context, h.table, rfl, hmark _, h.deferredEqu, h.deferredStorage, h.kinds⟩
  · exact h

theorem report (h : p.SameButCase p') (r r' : Record) {e e' : RecordError} (he : e.kind = e'.kind) :
    (p.report r e).SameButCase (p'.report r' e') := by
  refine ⟨h.foldCase, h.context, h.table, h.counter, h.highWater, h.deferredEqu, h.deferredStorage, ?_⟩
  simp only [Pass.report, List.map_append, h.kinds, List.map_cons, he]

theorem defer (h : p.SameButCase p') (hr : r.SameButCase r') :
    (p.defer r).SameButCase (p'.defer r') := by
  have hone : List.Forall₂ Deferred.SameButCase [⟨r, p.counter⟩] [⟨r', p'.counter⟩] :=
    .cons ⟨hr, h.counter⟩ .nil
  unfold Pass.defer
  dsimp only
  rw [hr.directive]
  split
  · exact ⟨h.foldCase, h.context, h.table, h.counter, h.highWater,
      List.rel_append h.deferredEqu hone, h.deferredStorage, h.kinds⟩
  · exact ⟨h.foldCase, h.context, h.table, h.counter, h.highWater, h.deferredEqu,
      List.rel_append h.deferredStorage hone, h.kinds⟩

theorem forward (h : p.SameButCase p') (hr : r.SameButCase r') :
    (p.forward r).SameButCase (p'.forward r') := by
  have hmark := h.markOrigin hr
  have hreading : Alike RecordError.kind Eq (p.reading r) (p'.reading r') := by
    rw [reading, reading, h.counter]
    exact hmark.effect hr p.counter
  rw [forward_eq, forward_eq]
  generalize p.reading r = outcome at hreading
  generalize p'.reading r' = outcome' at hreading
  cases hreading with
  | ok heffect =>
    subst heffect
    exact (hmark.settle hr _).advance _
  | @error e e' he =>
    -- whether the record is set aside depends on the kind of its failure only
    have hwait : e'.isForwardReference = e.isForwardReference := by
      rw [Bool.eq_iff_iff, RecordError.isForwardReference_iff, RecordError.isForwardReference_iff, he]
    dsimp only
    rw [hwait, hr.directive]
    split
    · exact hmark.defer hr
    · exact hmark.report r r' he

theorem retryRecord (h : p.SameButCase p') (hd : d.SameButCase d') :
    (p.retryRecord d).SameButCase (p'.retryRecord d') := by
  have heffect := h.effect hd.record d.counter
  unfold Pass.retryRecord
  rw [hd.counter]
  generalize p.effect d.record d.counter = outcome at heffect
  generalize p'.effect d'.record d.counter = outcome' at heffect
  cases heffect with
  | ok heffect =>
    subst heffect
    exact h.settle hd.record _
  | error he => exact h.report d.record d'.record he

theorem foldl_forward {rs rs' : List Record} (hrs : List.Forall₂ Record.SameButCase rs rs')
    (h : p.SameButCase p') : (rs.foldl Pass.forward p).SameButCase (rs'.foldl Pass.forward p') := by
  induction hrs generalizing p p' with
  | nil => exact h
  | cons hr _ ih => exact ih (h.forward hr)

theorem foldl_retryRecord {ds ds' : List Deferred} (hds : List.Forall₂ Deferred.SameButCase ds ds')
    (h : p.SameButCase p') :
    (ds.foldl Pass.retryRecord p).SameButCase (ds'.foldl Pass.retryRecord p') := by
  induction hds generalizing p p' with
  | nil => exact h
  | cons hd _ ih => exact ih (h.retryRecord hd)

/-- Records that are the same but for letter case leave passes that are. -/
theorem run {rs rs' : List Record} (hrs : List.Forall₂ Record.SameButCase rs rs')
    (h : p.SameButCase p') : (p.run rs).SameButCase (p'.run rs') := by
  have hforward := foldl_forward hrs h
  exact foldl_retryRecord (List.rel_append hforward.deferredEqu hforward.deferredStorage) hforward

end SameButCase
end Pass
end AsmLayout
