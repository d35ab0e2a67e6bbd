import AsmLayout.LayoutFile
import AsmLayout.Proofs.Names
import Mathlib.Data.List.Nodup

/-!
# Which layout files are accepted

A file is accepted if the keys of its contexts differ. Main statements: `LayoutFile.read_eq_ok_iff`
and `LayoutFile.read_eq_duplicateContext_iff` (otherwise the first context whose key was there before
is named). As keys tell fewer names apart than any session does, the contexts of an accepted file
have different normalized names (`LayoutFile.nodup_normalizeName`).
-/

namespace AsmLayout

/-- The key of a context is the upper-case form of its normalized name, folded or not. -/
theorem ContextSource.key_eq_upper (c : ContextSource) (foldCase : Bool) :
    c.key = Text.upper (normalizeName foldCase c.name) := by
  cases foldCase with
  | false => rfl
  | true => exact (Text.upper_upper _).symm

namespace LayoutFile

variable {seen : List String} {contexts : List ContextSource} {c : ContextSource} {text : String}
  {file : LayoutFile}

/-- The keys of the contexts differ, and none of them has been seen before. -/
structure Distinct (seen : List String) (contexts : List ContextSource) : Prop where
  nodup : (contexts.map ContextSource.key).Nodup
  unseen : ∀ c ∈ contexts, c.key ∉ seen

theorem distinct_nil_iff : Distinct [] contexts ↔ (contexts.map ContextSource.key).Nodup :=
  ⟨fun h => h.nodup, fun h => ⟨h, fun _ _ => List.not_mem_nil⟩⟩

theorem distinct_cons :
    Distinct seen (c :: contexts) ↔ c.key ∉ seen ∧ Distinct (c.key :: seen) contexts := by
  constructor
  · rintro ⟨hnodup, hunseen⟩
    obtain ⟨hc, hnodup⟩ := List.nodup_cons.1 hnodup
    refine ⟨hunseen c (by simp), hnodup, fun d hd hkey => ?_⟩
    rcases List.mem_cons.1 hkey with heq | hseen
    · exact hc (List.mem_map.2 ⟨d, hd, heq⟩)
    · exact hunseen d (by simp [hd]) hseen
  · rintro ⟨hc, hnodup, hunseen⟩
    refine ⟨List.nodup_cons.2 ⟨fun hmem => ?_, hnodup⟩, fun d hd => ?_⟩
    · obtain ⟨d, hd, heq⟩ := List.mem_map.1 hmem
      exact hunseen d hd (List.mem_cons.2 (.inl heq))
    · rcases List.mem_cons.1 hd with rfl | hd
      · exact hc
      · exact fun hseen => hunseen d hd (List.mem_cons_of_mem _ hseen)

theorem firstRepeated?_eq_none_iff : firstRepeated? seen contexts = none ↔ Distinct seen contexts := by
  induction contexts generalizing seen with
  | nil => exact ⟨fun _ => ⟨List.nodup_nil, fun _ h => absurd h List.not_mem_nil⟩, fun _ => rfl⟩
  | cons c contexts ih =>
    rw [firstRepeated?, distinct_cons, ← ih]
    by_cases hc : c.key ∈ seen <;> simp [hc]

/-- The first context with a key that was there before: all those in front of it differ. -/
theorem firstRepeated?_eq_some_iff : firstRepeated? seen contexts = some c ↔
    ∃ pre post, contexts = pre ++ c :: post ∧ Distinct seen pre ∧
      (c.key ∈ seen ∨ c.key ∈ pre.map ContextSource.key) := by
  induction contexts generalizing seen with
  | nil => simp [firstRepeated?]
  | cons d contexts ih =>
    rw [firstRepeated?]
    by_cases hd : d.key ∈ seen
    · rw [if_pos hd, Option.some.injEq]
      constructor
      · rintro rfl
        exact ⟨[], contexts, rfl, ⟨List.nodup_nil, fun _ h => absurd h List.not_mem_nil⟩, .inl hd⟩
      · -- were `d` in front of another, its key would not have been seen
        rintro ⟨pre, post, hsplit, hpre, -⟩
        cases pre with
        | nil => exact (List.cons.inj hsplit).1
        | cons x pre =>
          obtain ⟨rfl, -⟩ := List.cons.inj hsplit
          exact absurd hd (distinct_cons.1 hpre).1
    · rw [if_neg hd, ih]
      constructor
      · rintro ⟨pre, post, rfl, hpre, hkey⟩
        refine ⟨d :: pre, post, rfl, distinct_cons.2 ⟨hd, hpre⟩, ?_⟩
        simpa [or_assoc, or_left_comm] using hkey
      · rintro ⟨pre, post, hsplit, hpre, hkey⟩
        cases pre with
        | nil =>
          obtain ⟨rfl, -⟩ := List.cons.inj hsplit
          exact absurd hkey (by simpa using hd)
        | cons x pre =>
          obtain ⟨rfl, rfl⟩ := List.cons.inj hsplit
          refine ⟨pre, post, rfl, (distinct_cons.1 hpre).2, ?_⟩
          simpa [or_assoc, or_left_comm] using hkey

theorem read_eq_ok_iff : read text = .ok file ↔
    (Json.parse? text).bind ofJson? = some file ∧ (file.contexts.map ContextSource.key).Nodup := by
  rw [← distinct_nil_iff, ← firstRepeated?_eq_none_iff, read]
  cases (Json.parse? text).bind ofJson? with
  | none => simp
  | some parsed =>
    dsimp only
    rw [Option.some.injEq]
    constructor
    · intro h
      cases hrepeated : firstRepeated? [] parsed.contexts with
      | none =>
        rw [hrepeated] at h
        cases h
        exact ⟨rfl, hrepeated⟩
      | some c =>
        rw [hrepeated] at h
        cases h
    · rintro ⟨rfl, hnone⟩
      rw [hnone]

/-- A file is refused for a context, named as it is spelled, if that is the first one whose key
belongs to a context before it. -/
theorem read_eq_duplicateContext_iff {name : String} :
    read text = .error (.duplicateContext name) ↔
      ∃ file pre c post, (Json.parse? text).bind ofJson? = some file ∧
        file.contexts = pre ++ c :: post ∧ (pre.map ContextSource.key).Nodup ∧
        c.key ∈ pre.map ContextSource.key ∧ c.name = name := by
  have hrepeated : ∀ file : LayoutFile,
      (∃ pre c post, file.contexts = pre ++ c :: post ∧ (pre.map ContextSource.key).Nodup ∧
        c.key ∈ pre.map ContextSource.key ∧ c.name = name) ↔
      ∃ c, firstRepeated? [] file.contexts = some c ∧ c.name = name := by
    intro file
    simp only [firstRepeated?_eq_some_iff, distinct_nil_iff, List.not_mem_nil, false_or]
    constructor
    · rintro ⟨pre, c, post, hsplit, hpre, hkey, hname⟩
      exact ⟨c, ⟨pre, post, hsplit, hpre, hkey⟩, hname⟩
    · rintro ⟨c, ⟨pre, post, hsplit, hpre, hkey⟩, hname⟩
      exact ⟨pre, c, post, hsplit, hpre, hkey, hname⟩
  simp only [exists_and_left, hrepeated]
  unfold read
  cases (Json.parse? text).bind ofJson? with
  | none => simp
  | some file => cases h : firstRepeated? [] file.contexts <;> simp [h]

/-- The contexts of an accepted file differ under every normalization. -/
theorem nodup_normalizeName (h : read text = .ok file) (foldCase : Bool) :
    (file.contexts.map fun c => normalizeName foldCase c.name).Nodup := by
  have hkeys : file.contexts.map ContextSource.key =
      (file.contexts.map fun c => normalizeName foldCase c.name).map Text.upper := by
    rw [List.map_map]
    exact List.map_congr_left fun c _ => c.key_eq_upper foldCase
  have hnodup := (read_eq_ok_iff.1 h).2
  rw [hkeys] at hnodup
  exact List.Nodup.of_map Text.upper hnodup

end LayoutFile
end AsmLayout
