import AsmLayout.Proofs.Text.Upper
import AsmLayout.SymbolTable
import Mathlib.Data.List.DropRight

/-!
# Names have one spelling

Normalizing a name trims it and, where case is folded, writes it in upper case. Main statement:
`normalizeName_normalizeName` (a normalized name is its own spelling).
-/

namespace AsmLayout

namespace Text

/-- Neither end of the text is white space. -/
structure Stripped (cs : List Char) : Prop where
  head : ∀ h : cs ≠ [], isBlank (cs.head h) = false
  last : ∀ h : cs ≠ [], isBlank (cs.getLast h) = false

theorem dropTrailing_eq (cs : List Char) : dropTrailing cs = cs.rdropWhile isBlank := rfl

theorem stripped_strip (cs : List Char) : Stripped (strip cs) := by
  unfold strip
  rw [dropTrailing_eq]
  set ds := cs.dropWhile isBlank with hds
  refine ⟨fun h => ?_, fun h => Bool.eq_false_iff.2 (List.rdropWhile_last_not _ _ h)⟩
  have hpre : ds.rdropWhile isBlank <+: ds := List.rdropWhile_prefix isBlank _
  have hne : ds ≠ [] := fun hnil => h (by rw [hnil, List.rdropWhile_nil])
  rw [hpre.head h]
  exact List.head_dropWhile_not isBlank hne

theorem Stripped.strip_eq {cs : List Char} (h : Stripped cs) : strip cs = cs := by
  unfold strip
  have hfront : cs.dropWhile isBlank = cs := by
    cases cs with
    | nil => rfl
    | cons c cs =>
      have := h.head (List.cons_ne_nil _ _)
      exact List.dropWhile_cons_of_neg (by simpa using this)
  rw [hfront, dropTrailing_eq, List.rdropWhile_eq_self_iff]
  exact fun hne => Bool.eq_false_iff.1 (h.last hne)

/-- Behind a text that ends in no white space, trimming takes off what it does there. -/
theorem Stripped.strip_append {cs : List Char} (h : Stripped cs) (hne : cs ≠ [])
    (tail : List Char) : strip (cs ++ tail) = cs ++ dropTrailing tail := by
  have hfront : (cs ++ tail).dropWhile isBlank = cs ++ tail := by
    cases cs with
    | nil => exact absurd rfl hne
    | cons c cs => exact List.dropWhile_cons_of_neg (by simpa using h.head hne)
  have hback : cs.rdropWhile isBlank = cs :=
    List.rdropWhile_eq_self_iff.2 fun hne => Bool.eq_false_iff.1 (h.last hne)
  rw [strip, hfront, dropTrailing, dropTrailing, List.reverse_append, List.dropWhile_append,
    List.reverse_eq_iff.1 hback]
  split
  · next hempty => rw [List.isEmpty_iff.1 hempty, List.reverse_reverse, List.reverse_nil,
      List.append_nil]
  · rw [List.reverse_append, List.reverse_reverse]

theorem strip_strip (cs : List Char) : strip (strip cs) = strip cs := (stripped_strip cs).strip_eq

theorem Stripped.upper {cs : List Char} (h : Stripped cs) : Stripped (cs.flatMap upperChar) := by
  have hkeep : ∀ c, isBlank c = false → ∀ d ∈ upperChar c, isBlank d = false := by
    intro c hc d hd
    by_contra hblank
    have hb : isBlank d = true := by simpa using hblank
    rw [isBlank_of_mem_upperChar hd hb] at hb
    rw [hc] at hb; cases hb
  refine ⟨fun hne => ?_, fun hne => ?_⟩
  · cases cs with
    | nil => exact absurd rfl hne
    | cons c cs =>
      have hc := h.head (List.cons_ne_nil c cs)
      refine hkeep c hc _ ?_
      simp only [List.flatMap_cons, List.head_append_of_ne_nil (upperChar_ne_nil c)]
      exact List.head_mem _
  · rcases List.eq_nil_or_concat cs with rfl | ⟨cs, c, rfl⟩
    · exact absurd rfl hne
    · have hc : isBlank c = false := by simpa using h.last (by simp)
      refine hkeep c hc _ ?_
      simp only [List.concat_eq_append, List.flatMap_append, List.flatMap_cons, List.flatMap_nil,
        List.append_nil, List.getLast_append_of_ne_nil _ (upperChar_ne_nil c)]
      exact List.getLast_mem _

theorem trim_trim (s : String) : trim (trim s) = trim s := by
  simp only [trim, String.toList_ofList, strip_strip]

theorem trim_upper_trim (s : String) : trim (upper (trim s)) = upper (trim s) := by
  simp only [trim, upper, String.toList_ofList]
  rw [(stripped_strip s.toList).upper.strip_eq]

end Text

theorem normalizeName_normalizeName (foldCase : Bool) (name : String) :
    normalizeName foldCase (normalizeName foldCase name) = normalizeName foldCase name := by
  cases foldCase with
  | false => exact Text.trim_trim name
  | true =>
    show Text.upper (Text.trim (Text.upper (Text.trim name))) = Text.upper (Text.trim name)
    rw [Text.trim_upper_trim, Text.upper_upper]

theorem SymbolTable.normalize_normalize (t : SymbolTable) (name : String) :
    t.normalize (t.normalize name) = t.normalize name :=
  normalizeName_normalizeName t.foldCase name

end AsmLayout
