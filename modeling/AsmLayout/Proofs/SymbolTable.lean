import AsmLayout.Proofs.Names

/-!
# The symbol table as a map

`SymbolTable.get?` reads the table as a map from keys, pairs of a context and a label that are both
normalized. Main statement: `get?_define` (a definition sets one key and leaves every other one).
`SymbolTable.Extends` is the order in which tables grow.
-/

namespace AsmLayout

/-- The names under which an entry is found. -/
def SymbolEntry.key (e : SymbolEntry) : String × String := (e.context, e.label)

namespace SymbolTable

variable {t t' t'' : SymbolTable} {context label scope name : String}

def get? (t : SymbolTable) (key : String × String) : Option SymbolEntry :=
  t.entries.find? fun e => e.key == key

/-- The key that a label has in a context. -/
def keyOf (t : SymbolTable) (context label : String) : String × String :=
  (t.normalize context, t.normalize label)

/-- The key that a name stands for inside `scope`. -/
def target (t : SymbolTable) (scope name : String) : String × String :=
  match qualified? name with
  | some (context, label) => t.keyOf context label
  | none => t.keyOf scope name

theorem lookup?_eq_get? : t.lookup? context label = t.get? (t.keyOf context label) :=
  List.find?_eq_bind_findIdx?_getElem?.symm

theorem resolve?_eq_get? : t.resolve? scope name = t.get? (t.target scope name) := by
  unfold resolve? target
  cases qualified? name <;> exact lookup?_eq_get?

theorem keyOf_normalize : t.keyOf (t.normalize context) label = t.keyOf context label := by
  simp only [keyOf, normalize_normalize]

theorem target_normalize : t.target (t.normalize scope) name = t.target scope name := by
  simp only [target, keyOf_normalize]

theorem symbolsFrom_normalize : t.symbolsFrom (t.normalize scope) = t.symbolsFrom scope := by
  simp only [symbolsFrom, normalize_normalize]

/-- The entry that a definition makes. -/
def made (t : SymbolTable) (context label : String) (displacement : Int64) (length : UInt32) :
    SymbolEntry :=
  ⟨t.normalize label, displacement, length, t.normalize context⟩

theorem normalize_congr (h : t'.foldCase = t.foldCase) : t'.normalize = t.normalize := by
  funext name
  rw [normalize, normalize, h]

theorem keyOf_congr (h : t'.foldCase = t.foldCase) : t'.keyOf = t.keyOf := by
  funext context label
  rw [keyOf, keyOf, normalize_congr h]

theorem target_congr (h : t'.foldCase = t.foldCase) : t'.target = t.target := by
  funext scope name
  rw [target, target, keyOf_congr h]

theorem made_congr (h : t'.foldCase = t.foldCase) : t'.made = t.made := by
  funext context label displacement length
  rw [made, made, normalize_congr h]

variable {displacement : Int64} {length : UInt32}

/-- Entries with one put in at its key, or at the end. -/
def placed (entries : List SymbolEntry) (e : SymbolEntry) : List SymbolEntry :=
  match entries.findIdx? (·.key == e.key) with
  | some slot => entries.set slot e
  | none => entries ++ [e]

theorem define_eq : t.define context label displacement length =
    { t with entries := placed t.entries (t.made context label displacement length) } := by
  have hslot : t.slot? (t.normalize context) (t.normalize label) =
      t.entries.findIdx? (·.key == (t.made context label displacement length).key) := rfl
  unfold define placed
  simp only [hslot]
  cases t.entries.findIdx? (·.key == (t.made context label displacement length).key) <;> rfl

@[simp] theorem foldCase_define :
    (t.define context label displacement length).foldCase = t.foldCase := by
  rw [define_eq]

@[simp] theorem normalize_define :
    (t.define context label displacement length).normalize = t.normalize :=
  normalize_congr foldCase_define

@[simp] theorem keyOf_define :
    (t.define context label displacement length).keyOf = t.keyOf :=
  keyOf_congr foldCase_define

theorem placed_cons (x : SymbolEntry) (entries : List SymbolEntry) (e : SymbolEntry) :
    placed (x :: entries) e = if x.key = e.key then e :: entries else x :: placed entries e := by
  unfold placed
  by_cases hx : x.key = e.key
  · simp [List.findIdx?_cons, hx]
  · cases hfind : entries.findIdx? (·.key == e.key) <;> simp [List.findIdx?_cons, hx, hfind]

theorem find?_placed (entries : List SymbolEntry) (e : SymbolEntry) (key : String × String) :
    (placed entries e).find? (·.key == key) =
      if key = e.key then some e else entries.find? (·.key == key) := by
  induction entries with
  | nil =>
    by_cases hk : key = e.key
    · simp [placed, hk]
    · simp [placed, hk, Ne.symm hk]
  | cons x entries ih =>
    rw [placed_cons]
    by_cases hx : x.key = e.key
    · by_cases hk : key = e.key
      · simp [hx, hk]
      · simp [hx, hk, Ne.symm hk]
    · by_cases hxk : x.key = key
      · have hk : key ≠ e.key := fun h => hx (hxk.trans h)
        simp [hxk, hk]
      · simp [hx, hxk, ih]

theorem get?_define (key : String × String) :
    (t.define context label displacement length).get? key =
      if key = t.keyOf context label then some (t.made context label displacement length)
      else t.get? key := by
  rw [define_eq]
  exact find?_placed _ _ _

/-- The entry of a new label comes last. -/
theorem entries_define_of_new (h : t.get? (t.keyOf context label) = none) :
    (t.define context label displacement length).entries =
      t.entries ++ [t.made context label displacement length] := by
  have hne : ∀ e ∈ t.entries, e.key ≠ t.keyOf context label :=
    fun e he => by simpa using List.find?_eq_none.1 h e he
  have hnone : t.entries.findIdx? (·.key == (t.made context label displacement length).key) =
      none := List.findIdx?_eq_none_iff.2 fun e he => beq_eq_false_iff_ne.2 (hne e he)
  rw [define_eq]
  simp only [placed, hnone]

variable {keep : String × String → Bool}

/-- The table with the entries whose keys are kept. -/
def restrict (t : SymbolTable) (keep : String × String → Bool) : SymbolTable :=
  { t with entries := t.entries.filter fun e => keep e.key }

theorem target_restrict : (t.restrict keep).target scope name = t.target scope name := rfl

theorem restrict_true : t.restrict (fun _ => true) = t := by
  unfold restrict
  rw [List.filter_eq_self.2 fun _ _ => rfl]

theorem get?_restrict {key : String × String} (h : keep key = true) :
    (t.restrict keep).get? key = t.get? key := by
  unfold get? restrict
  rw [List.find?_filter]
  congr 1
  funext e
  by_cases he : e.key = key <;> simp [he, h]

theorem filter_placed {entries : List SymbolEntry} {e : SymbolEntry} (h : keep e.key = true) :
    ((placed entries e).filter fun e => keep e.key) =
      placed (entries.filter fun e => keep e.key) e := by
  induction entries with
  | nil => simp [placed, h]
  | cons x entries ih =>
    rw [placed_cons]
    by_cases hx : x.key = e.key
    · simp [hx, h, placed_cons]
    · rw [if_neg hx]
      cases hk : keep x.key <;> simp [hk, hx, ih, placed_cons]

theorem filter_placed_of_not (entries : List SymbolEntry) {e : SymbolEntry}
    (h : keep e.key = false) :
    ((placed entries e).filter fun e => keep e.key) = entries.filter fun e => keep e.key := by
  induction entries with
  | nil => simp [placed, h]
  | cons x entries ih =>
    rw [placed_cons]
    by_cases hx : x.key = e.key
    · simp [hx, h]
    · rw [if_neg hx]
      cases hk : keep x.key <;> simp [hk, ih]

/-- A definition under a kept key and a restriction may change places. -/
theorem restrict_define (h : keep (t.keyOf context label) = true) :
    (t.define context label displacement length).restrict keep =
      (t.restrict keep).define context label displacement length := by
  rw [define_eq, define_eq]
  exact congrArg (SymbolTable.mk t.foldCase) (filter_placed h)

theorem restrict_define_of_not (h : keep (t.keyOf context label) = false) :
    (t.define context label displacement length).restrict keep = t.restrict keep := by
  rw [define_eq]
  exact congrArg (SymbolTable.mk t.foldCase) (filter_placed_of_not t.entries h)

/-- The table without the entry at a key. -/
def erase (t : SymbolTable) (key : String × String) : SymbolTable :=
  { t with entries := t.entries.filter (·.key != key) }

theorem erase_eq_restrict (key : String × String) : t.erase key = t.restrict (· != key) := rfl

theorem get?_erase_of_ne {key key' : String × String} (h : key' ≠ key) :
    (t.erase key).get? key' = t.get? key' := by
  rw [erase_eq_restrict]
  exact get?_restrict (bne_iff_ne.2 h)

theorem get?_erase_self (key : String × String) : (t.erase key).get? key = none := by
  unfold get? erase
  rw [List.find?_filter, List.find?_eq_none]
  intro e _
  by_cases he : e.key = key <;> simp [he]

theorem erase_of_get? {key : String × String} (h : t.get? key = none) : t.erase key = t := by
  unfold erase
  rw [List.filter_eq_self.2]
  intro e he
  simpa using List.find?_eq_none.1 h e he

theorem erase_define_self :
    (t.define context label displacement length).erase (t.keyOf context label) =
      t.erase (t.keyOf context label) := by
  rw [erase_eq_restrict, erase_eq_restrict]
  exact restrict_define_of_not (bne_self_eq_false (t.keyOf context label))

/-- The table `t'` has every entry of `t`. -/
structure Extends (t' t : SymbolTable) : Prop where
  foldCase : t'.foldCase = t.foldCase
  get : ∀ key e, t.get? key = some e → t'.get? key = some e

theorem Extends.refl (t : SymbolTable) : t.Extends t := ⟨rfl, fun _ _ h => h⟩

theorem Extends.trans (h' : t''.Extends t') (h : t'.Extends t) : t''.Extends t :=
  ⟨h'.foldCase.trans h.foldCase, fun key e he => h'.get key e (h.get key e he)⟩

theorem Extends.lookup? {e : SymbolEntry} (h : t'.Extends t) (he : t.lookup? context label = some e) :
    t'.lookup? context label = some e := by
  rw [lookup?_eq_get?] at he ⊢
  rw [keyOf_congr h.foldCase]
  exact h.get _ _ he

theorem Extends.define (h : t.get? (t.keyOf context label) = none) :
    (t.define context label displacement length).Extends t := by
  refine ⟨foldCase_define, fun key e he => ?_⟩
  rw [get?_define, if_neg]
  · exact he
  · rintro rfl
    rw [h] at he; cases he

theorem extends_erase (t : SymbolTable) (key : String × String) : t.Extends (t.erase key) := by
  refine ⟨rfl, fun key' e he => ?_⟩
  by_cases hkey : key' = key
  · rw [hkey, get?_erase_self] at he; cases he
  · rwa [get?_erase_of_ne hkey] at he

end SymbolTable

/-- The symbols `σ'` give every name the values that it has in `σ`, if it has any. -/
structure Symbols.Extends (σ' σ : Symbols) : Prop where
  displacement : ∀ name n, σ.displacement name = some n → σ'.displacement name = some n
  length : ∀ name n, σ.length name = some n → σ'.length name = some n

theorem SymbolTable.Extends.symbolsFrom {t t' : SymbolTable} (h : t'.Extends t) (context : String) :
    (t'.symbolsFrom context).Extends (t.symbolsFrom context) := by
  have hresolve : ∀ name e, t.resolve? (t.normalize context) name = some e →
      t'.resolve? (t'.normalize context) name = some e := by
    intro name e he
    rw [resolve?_eq_get?, target_normalize] at he ⊢
    rw [target_congr h.foldCase]
    exact h.get _ _ he
  constructor
  · intro name n hn
    obtain ⟨e, he, rfl⟩ := Option.map_eq_some_iff.1 hn
    exact Option.map_eq_some_iff.2 ⟨e, hresolve name e he, rfl⟩
  · intro name n hn
    obtain ⟨e, he, rfl⟩ := Option.map_eq_some_iff.1 hn
    exact Option.map_eq_some_iff.2 ⟨e, hresolve name e he, rfl⟩

end AsmLayout
