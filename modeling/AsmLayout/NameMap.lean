import AsmLayout.Text.Case

/-!
# Maps keyed by names

A `NameMap` finds values by name and takes no account of letter case: names are kept and looked up
in upper case. Main statement: `find?_insert` (the last value inserted under a name is the one
found, and no other name is touched).
-/

namespace AsmLayout

/-- Values by name. The names are held in upper case, each once. -/
structure NameMap (α : Type) where
  entries : List (String × α)

namespace NameMap
variable {α : Type}

def empty : NameMap α := ⟨[]⟩

/-- The value under `name`, in whatever case it is written. -/
def find? (m : NameMap α) (name : String) : Option α := m.entries.lookup (Text.upper name)

/-- The map with `value` under `name`, in place of any value it had there. -/
def insert (m : NameMap α) (name : String) (value : α) : NameMap α :=
  ⟨(Text.upper name, value) :: m.entries.filter fun entry => entry.1 != Text.upper name⟩

def insertAll (m : NameMap α) (values : List (String × α)) : NameMap α :=
  values.foldl (fun m entry => m.insert entry.1 entry.2) m

/-- The number of names. -/
def size (m : NameMap α) : Nat := m.entries.length

theorem lookup_filter_of_ne {key other : String} (h : key ≠ other) (l : List (String × α)) :
    (l.filter fun entry => entry.1 != other).lookup key = l.lookup key := by
  induction l with
  | nil => rfl
  | cons entry l ih =>
    obtain ⟨name, value⟩ := entry
    by_cases hn : name = other
    · subst hn
      simp [List.lookup_cons, ih, beq_eq_false_iff_ne.2 h]
    · by_cases hk : key = name <;> simp [hn, hk, ih, List.lookup_cons]

theorem find?_insert (m : NameMap α) (name other : String) (value : α) :
    (m.insert name value).find? other =
      if Text.upper other = Text.upper name then some value else m.find? other := by
  by_cases h : Text.upper other = Text.upper name
  · simp [find?, insert, h]
  · rw [if_neg h, find?, insert, List.lookup_cons, beq_eq_false_iff_ne.2 h]
    exact lookup_filter_of_ne h m.entries

end NameMap
end AsmLayout
