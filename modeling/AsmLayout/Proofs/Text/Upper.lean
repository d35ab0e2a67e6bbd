import AsmLayout.Text.Blank
import AsmLayout.Text.Case
import Mathlib.Data.List.Basic

/-!
# Upper case is final

An upper-case form holds no letter with a further upper-case form (`upperChar_of_mem`) and no white
space that was not there before (`isBlank_of_mem_upperChar`). Both are checked on the tables at
once: a set of code points is written as the bits of a number, so that two sets are disjoint when
the numbers share no bit.
-/

namespace AsmLayout.Text

/-- The number whose bits are the given code points. -/
def codeBits (codes : List Nat) : Nat := codes.foldr (fun n bits => bits ||| 1 <<< n) 0

theorem testBit_codeBits (codes : List Nat) (n : Nat) :
    (codeBits codes).testBit n = true ↔ n ∈ codes := by
  induction codes with
  | nil => simp [codeBits]
  | cons m codes ih =>
    have hm : (1 <<< m).testBit n = true ↔ n = m := by
      rw [Nat.one_shiftLeft, Nat.testBit_two_pow, decide_eq_true_eq, eq_comm]
    show (codeBits codes ||| 1 <<< m).testBit n = true ↔ n ∈ m :: codes
    rw [Nat.testBit_or, Bool.or_eq_true, ih, hm, List.mem_cons, or_comm]

theorem notMem_of_codeBits_and {l l' : List Nat} (h : codeBits l &&& codeBits l' = 0) {n : Nat}
    (hn : n ∈ l') : n ∉ l := by
  intro hl
  have hbit : (codeBits l &&& codeBits l').testBit n = true := by
    rw [Nat.testBit_and, (testBit_codeBits l n).2 hl, (testBit_codeBits l' n).2 hn]; rfl
  rw [h, Nat.zero_testBit] at hbit
  cases hbit

/-- The letters of a run. -/
def CaseRun.letters (run : CaseRun) : List Nat :=
  (List.range ((run.last - run.first) / run.stride + 1)).map fun k => run.first + k * run.stride

/-- The upper-case forms of the letters of a run. -/
def CaseRun.images (run : CaseRun) : List Nat :=
  run.letters.map fun n : Nat => ((n : Int) + run.shift).toNat

/-- The characters that are not their own upper-case form. -/
def lowerCodes : List Nat :=
  List.range' 0x61 26 ++ caseExpansions.map Prod.fst ++ caseRuns.flatMap CaseRun.letters

/-- The characters of upper-case forms, with zero for what is no character. -/
def upperCodes : List Nat :=
  0 :: List.range' 0x41 26 ++ caseExpansions.flatMap Prod.snd ++ caseRuns.flatMap CaseRun.images

def blankCodes : List Nat :=
  blanks.intervals.flatMap fun i => List.range' i.1 (i.2 + 1 - i.1)

theorem notMem_lowerCodes {n : Nat} (h : n ∈ upperCodes) : n ∉ lowerCodes :=
  notMem_of_codeBits_and (by decide +kernel) h

theorem notMem_blankCodes {n : Nat} (h : n ∈ upperCodes) : n ∉ blankCodes :=
  notMem_of_codeBits_and (by decide +kernel) h

theorem CaseRun.mem_letters {run : CaseRun} {n : Nat} (h : run.covers n = true) :
    n ∈ run.letters := by
  simp only [covers, Bool.and_eq_true, decide_eq_true_eq, beq_iff_eq] at h
  obtain ⟨⟨hlo, hhi⟩, hmod⟩ := h
  have hdiv : (n - run.first) / run.stride * run.stride = n - run.first :=
    Nat.div_mul_cancel (Nat.dvd_of_mod_eq_zero hmod)
  refine List.mem_map.2 ⟨(n - run.first) / run.stride, List.mem_range.2 ?_, by omega⟩
  exact Nat.lt_succ_of_le (Nat.div_le_div_right (by omega))

theorem forall_ascii {P : Char → Prop} (h : ∀ n < 0x80, P (Char.ofNat n)) {c : Char}
    (hc : c.toNat < 0x80) : P c := by
  rw [← Char.ofNat_toNat c]
  exact h c.toNat hc

theorem toNat_mem_upperCodes {m : Nat} (h : m ∈ upperCodes) : (Char.ofNat m).toNat ∈ upperCodes := by
  by_cases hm : m.isValidChar
  · rw [Char.ofNat, dif_pos hm]
    exact h
  · rw [Char.ofNat, dif_neg hm]
    exact List.mem_cons_self

theorem toUpper_of_ascii {c : Char} (hc : c.toNat < 0x80) :
    (c.toNat ∉ lowerCodes → c.toUpper = c) ∧ (c.toUpper = c ∨ c.toUpper.toNat ∈ upperCodes) := by
  have h := forall_ascii (P := fun c => (c.toNat ∉ List.range' 0x61 26 → c.toUpper = c) ∧
    (c.toUpper = c ∨ c.toUpper.toNat ∈ List.range' 0x41 26)) (by decide) hc
  refine ⟨fun hn => h.1 fun hm => hn ?_, h.2.imp_right fun hm => ?_⟩
  · simp [lowerCodes, hm]
  · simp [upperCodes, hm]

theorem upperChar_of_notMem_lowerCodes {c : Char} (h : c.toNat ∉ lowerCodes) :
    upperChar c = [c] := by
  unfold upperChar
  split
  · next hc => rw [(toUpper_of_ascii hc).1 h]
  · simp only [lowerCodes, List.mem_append, not_or, List.mem_flatMap, not_exists, not_and] at h
    obtain ⟨⟨-, hexp⟩, hrun⟩ := h
    have hlookup : caseExpansions.lookup c.toNat = none := by
      rw [List.lookup_eq_none_iff]
      intro p hp
      exact bne_iff_ne.2 fun heq => hexp (heq ▸ List.mem_map_of_mem hp)
    have hfind : caseRuns.find? (·.covers c.toNat) = none := by
      rw [List.find?_eq_none]
      exact fun run hr hcov => hrun run hr (CaseRun.mem_letters hcov)
    rw [hlookup, hfind]

/-- A character of an upper-case form is the character itself or stands in the table. -/
theorem mem_upperChar {c d : Char} (h : d ∈ upperChar c) :
    d = c ∧ upperChar c = [c] ∨ d.toNat ∈ upperCodes := by
  unfold upperChar at h ⊢
  split at h
  · next hc =>
    rw [List.mem_singleton] at h
    subst h
    rcases (toUpper_of_ascii hc).2 with heq | hmem
    · rw [if_pos hc, heq]; exact .inl ⟨rfl, rfl⟩
    · exact .inr hmem
  · next hc =>
    rw [if_neg hc]
    cases hl : caseExpansions.lookup c.toNat with
    | some codes =>
      rw [hl] at h
      obtain ⟨m, hm, rfl⟩ := List.mem_map.1 h
      obtain ⟨l₁, l₂, hsplit, -⟩ := List.lookup_eq_some_iff.1 hl
      have hmem : (c.toNat, codes) ∈ caseExpansions := by rw [hsplit]; simp
      have hcode : m ∈ caseExpansions.flatMap Prod.snd := List.mem_flatMap.2 ⟨_, hmem, hm⟩
      exact .inr (toNat_mem_upperCodes (by simp [upperCodes, hcode]))
    | none =>
      rw [hl] at h
      cases hf : caseRuns.find? (·.covers c.toNat) with
      | none => rw [hf] at h; exact .inl ⟨List.mem_singleton.1 h, rfl⟩
      | some run =>
        simp only [hf, List.mem_singleton] at h
        subst h
        have hletter := CaseRun.mem_letters
          (List.find?_some (p := fun run : CaseRun => run.covers c.toNat) hf)
        have himage : ((c.toNat : Int) + run.shift).toNat ∈ caseRuns.flatMap CaseRun.images :=
          List.mem_flatMap.2 ⟨run, List.mem_of_find?_eq_some hf, List.mem_map.2 ⟨_, hletter, rfl⟩⟩
        exact .inr (toNat_mem_upperCodes (by simp [upperCodes, himage]))

theorem upperChar_of_mem {c d : Char} (h : d ∈ upperChar c) : upperChar d = [d] := by
  rcases mem_upperChar h with ⟨rfl, heq⟩ | hmem
  · exact heq
  · exact upperChar_of_notMem_lowerCodes (notMem_lowerCodes hmem)

theorem upperChar_ne_nil (c : Char) : upperChar c ≠ [] := by
  have hexp : ∀ e ∈ caseExpansions, e.2 ≠ [] := by decide
  unfold upperChar
  split
  · exact List.cons_ne_nil _ _
  split
  · next codes hl =>
    obtain ⟨l₁, l₂, hsplit, -⟩ := List.lookup_eq_some_iff.1 hl
    have hmem : (c.toNat, codes) ∈ caseExpansions := by rw [hsplit]; simp
    simpa using hexp _ hmem
  · split <;> exact List.cons_ne_nil _ _

theorem mem_blankCodes {c : Char} (h : isBlank c = true) : c.toNat ∈ blankCodes := by
  obtain ⟨i, hi, hlo, hhi⟩ := CodeRanges.covers_eq_true_iff.1 h
  exact List.mem_flatMap.2 ⟨i, hi, List.mem_range'_1.2 ⟨hlo, by omega⟩⟩

theorem isBlank_of_mem_upperChar {c d : Char} (h : d ∈ upperChar c) (hd : isBlank d = true) :
    d = c := by
  rcases mem_upperChar h with ⟨rfl, -⟩ | hmem
  · rfl
  · exact absurd (mem_blankCodes hd) (notMem_blankCodes hmem)

theorem upper_upper (s : String) : upper (upper s) = upper s := by
  have hfix : ∀ cs : List Char, (cs.flatMap upperChar).flatMap upperChar = cs.flatMap upperChar := by
    intro cs
    rw [List.flatMap_assoc]
    refine List.flatMap_congr fun c _ => ?_
    rw [List.flatMap_congr fun d hd => upperChar_of_mem hd, List.flatMap_singleton']
  simp only [upper, String.toList_ofList, hfix]

end AsmLayout.Text
