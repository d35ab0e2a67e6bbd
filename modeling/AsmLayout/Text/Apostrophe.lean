/-!
# Apostrophes in quoted terms

Inside the apostrophes of a self-defining term an apostrophe is written twice. `Text.doubled` writes
a payload that way and `Text.undoubled` reads it back. Main statement: `undoubled_doubled`.
-/

namespace AsmLayout.Text

/-- Every apostrophe written twice. -/
def doubled : List Char → List Char
  | [] => []
  | c :: cs => if c = '\'' then '\'' :: '\'' :: doubled cs else c :: doubled cs

/-- Every pair of apostrophes, taken from the left, read as one. -/
def undoubled : List Char → List Char
  | '\'' :: '\'' :: cs => '\'' :: undoubled cs
  | c :: cs => c :: undoubled cs
  | [] => []

theorem undoubled_doubled (cs : List Char) : undoubled (doubled cs) = cs := by
  induction cs with
  | nil => rfl
  | cons c cs ih =>
    by_cases hc : c = '\''
    · subst hc
      simp [doubled, undoubled, ih]
    · rw [doubled, if_neg hc, undoubled, ih]
      exact fun _ h _ => hc h

theorem undoubled_subset (cs : List Char) : undoubled cs ⊆ cs := by
  fun_induction undoubled cs with
  | case1 cs ih => exact List.cons_subset_cons _ (List.Subset.trans ih (List.subset_cons_self ..))
  | case2 c cs _ ih => exact List.cons_subset_cons _ ih
  | case3 => exact List.Subset.refl _

end AsmLayout.Text
