import AsmLayout.Proofs.SymbolTable.Index
import Mathlib.Data.Finset.Card
import Mathlib.Data.List.Induction

/-!
# A table from its definitions

What a series of definitions leaves behind: under each key the values of the last definition, and
the keys in the order of their first ones. Main statement: `SymbolTable.ofDefinitions_lastWrites`.
-/

namespace AsmLayout

/-- A label with its values, to be defined in a context. -/
structure Definition where
  context : String
  label : String
  displacement : Int64
  length : UInt32
  deriving DecidableEq, Repr

namespace Definition

/-- The key that the definition sets. -/
def key (foldCase : Bool) (d : Definition) : String × String :=
  (normalizeName foldCase d.context, normalizeName foldCase d.label)

/-- The entry that the definition makes. -/
def entry (foldCase : Bool) (d : Definition) : SymbolEntry :=
  ⟨normalizeName foldCase d.label, d.displacement, d.length, normalizeName foldCase d.context⟩

end Definition

/-- The table after the definitions, one after another. -/
def SymbolTable.ofDefinitions (foldCase : Bool) (ds : List Definition) : SymbolTable :=
  ds.foldl (fun t d => t.define d.context d.label d.displacement d.length) (.empty foldCase)

/-- The indexed table after the definitions. -/
def IndexedTable.ofDefinitions? (foldCase : Bool) (ds : List Definition) : Option IndexedTable :=
  ds.foldlM (fun i d => i.define? d.context d.label d.displacement d.length) (.empty foldCase)

namespace SymbolTable

variable {foldCase : Bool} {ds : List Definition} {d : Definition} {t : SymbolTable}
  {e : SymbolEntry}

theorem ofDefinitions_concat : ofDefinitions foldCase (ds ++ [d]) =
    (ofDefinitions foldCase ds).define d.context d.label d.displacement d.length := by
  rw [ofDefinitions, List.foldl_append]
  rfl

@[simp] theorem foldCase_ofDefinitions (foldCase : Bool) (ds : List Definition) :
    (ofDefinitions foldCase ds).foldCase = foldCase := by
  induction ds using List.reverseRecOn with
  | nil => rfl
  | append_singleton ds d ih => rw [ofDefinitions_concat, foldCase_define, ih]

theorem keyOf_ofDefinitions (context label : String) :
    (ofDefinitions foldCase ds).keyOf context label =
      (normalizeName foldCase context, normalizeName foldCase label) := by
  rw [keyOf, normalize, normalize, foldCase_ofDefinitions]

theorem keyOf_definition :
    (ofDefinitions foldCase ds).keyOf d.context d.label = d.key foldCase :=
  keyOf_ofDefinitions d.context d.label

theorem made_ofDefinitions : (ofDefinitions foldCase ds).made d.context d.label d.displacement
    d.length = d.entry foldCase := by
  rw [made, normalize, normalize, foldCase_ofDefinitions]
  rfl

/-- Under a key stands what its last definition says. -/
theorem get?_ofDefinitions (key : String × String) : (ofDefinitions foldCase ds).get? key =
    (ds.reverse.find? fun d => d.key foldCase == key).map (Definition.entry foldCase) := by
  induction ds using List.reverseRecOn with
  | nil => rfl
  | append_singleton ds d ih =>
    rw [ofDefinitions_concat, get?_define, keyOf_definition, made_ofDefinitions, ih,
      List.reverse_append, List.reverse_singleton, List.singleton_append]
    by_cases hkey : key = d.key foldCase
    · rw [if_pos hkey, List.find?_cons_of_pos (by simp [hkey])]
      rfl
    · rw [if_neg hkey, List.find?_cons_of_neg (by simpa using Ne.symm hkey)]

theorem mem_keys_ofDefinitions (key : String × String) :
    key ∈ (ofDefinitions foldCase ds).keys ↔ key ∈ ds.map (Definition.key foldCase) := by
  induction ds using List.reverseRecOn with
  | nil => exact Iff.rfl
  | append_singleton ds d ih =>
    rw [ofDefinitions_concat, keys_define, keyOf_definition, List.map_append, List.mem_append, ← ih,
      List.map_singleton]
    split
    · next hmem =>
      rw [List.mem_singleton, or_iff_left_of_imp]
      rintro rfl
      exact hmem
    · rw [List.mem_append]

/-- The keys stand in the order of their first definitions. -/
theorem pairwise_keys_ofDefinitions (foldCase : Bool) (ds : List Definition) :
    (ofDefinitions foldCase ds).keys.Pairwise fun key key' =>
      (ds.map (Definition.key foldCase)).idxOf key <
        (ds.map (Definition.key foldCase)).idxOf key' := by
  induction ds using List.reverseRecOn with
  | nil => exact .nil
  | append_singleton ds d ih =>
    -- a further definition moves no first one
    have hold : (ofDefinitions foldCase ds).keys.Pairwise fun key key' =>
        ((ds ++ [d]).map (Definition.key foldCase)).idxOf key <
          ((ds ++ [d]).map (Definition.key foldCase)).idxOf key' := by
      refine ih.imp_of_mem fun {key key'} hkey hkey' hlt => ?_
      rw [mem_keys_ofDefinitions] at hkey hkey'
      rwa [List.map_append, List.idxOf_append_of_mem hkey, List.idxOf_append_of_mem hkey']
    rw [ofDefinitions_concat, keys_define, keyOf_definition]
    split
    · exact hold
    · next hnew =>
      refine List.pairwise_append.2 ⟨hold, List.pairwise_singleton _ _, ?_⟩
      intro key hkey key' hkey'
      rw [List.mem_singleton] at hkey'
      rw [mem_keys_ofDefinitions] at hkey hnew
      rw [hkey', List.map_append, List.idxOf_append_of_mem hkey, List.idxOf_append_of_notMem hnew]
      exact Nat.lt_add_right _ (List.idxOf_lt_length_of_mem hkey)

theorem nodup_keys_ofDefinitions (foldCase : Bool) (ds : List Definition) :
    (ofDefinitions foldCase ds).keys.Nodup :=
  (pairwise_keys_ofDefinitions foldCase ds).imp fun h heq => by rw [heq] at h; exact h.false

theorem size_ofDefinitions (foldCase : Bool) (ds : List Definition) :
    (ofDefinitions foldCase ds).size = (ds.map (Definition.key foldCase)).toFinset.card := by
  have hkeys : (ds.map (Definition.key foldCase)).toFinset =
      (ofDefinitions foldCase ds).keys.toFinset := by
    ext key
    rw [List.mem_toFinset, List.mem_toFinset, mem_keys_ofDefinitions]
  rw [hkeys, List.toFinset_card_of_nodup (nodup_keys_ofDefinitions foldCase ds), keys,
    List.length_map]
  rfl

/-- Where keys are not repeated, every entry is found under its key. -/
theorem get?_key_of_mem (h : t.keys.Nodup) (he : e ∈ t.entries) : t.get? e.key = some e := by
  cases hfind : t.get? e.key with
  | none =>
    have hne := List.find?_eq_none.1 hfind e he
    exact absurd (beq_self_eq_true e.key) hne
  | some e' =>
    have hkey : e'.key = e.key := by simpa using List.find?_some hfind
    rw [List.inj_on_of_nodup_map h (List.mem_of_find?_eq_some hfind) he hkey]

/-- Every entry is made by a definition, so that its names are normalized. -/
theorem exists_definition_of_mem (he : e ∈ (ofDefinitions foldCase ds).entries) :
    ∃ d ∈ ds, d.entry foldCase = e := by
  have hget := get?_key_of_mem (nodup_keys_ofDefinitions foldCase ds) he
  rw [get?_ofDefinitions] at hget
  obtain ⟨d, hd, hentry⟩ := Option.map_eq_some_iff.1 hget
  exact ⟨d, List.mem_reverse.1 (List.mem_of_find?_eq_some hd), hentry⟩

theorem lookup?_of_mem (he : e ∈ (ofDefinitions foldCase ds).entries) :
    (ofDefinitions foldCase ds).lookup? e.context e.label = some e := by
  obtain ⟨d, -, rfl⟩ := exists_definition_of_mem he
  have hkey : (ofDefinitions foldCase ds).keyOf (d.entry foldCase).context
      (d.entry foldCase).label = (d.entry foldCase).key := by
    rw [keyOf_ofDefinitions]
    simp only [Definition.entry, normalizeName_normalizeName]
    rfl
  rw [lookup?_eq_get?, hkey]
  exact get?_key_of_mem (nodup_keys_ofDefinitions foldCase ds) he

theorem represents_ofDefinitions (foldCase : Bool) (ds : List Definition) :
    ∃ i, IndexedTable.ofDefinitions? foldCase ds = some i ∧
      i.Represents (ofDefinitions foldCase ds) := by
  induction ds using List.reverseRecOn with
  | nil => exact ⟨_, rfl, IndexedTable.represents_empty foldCase⟩
  | append_singleton ds d ih =>
    obtain ⟨i, hi, hrep⟩ := ih
    obtain ⟨i', hi', hrep'⟩ := hrep.define d.context d.label d.displacement d.length
    refine ⟨i', ?_, ?_⟩
    · rw [IndexedTable.ofDefinitions?, List.foldlM_append]
      rw [IndexedTable.ofDefinitions?] at hi
      rw [hi]
      simpa using hi'
    · rw [ofDefinitions_concat]
      exact hrep'

/-- The slot of a key is the place of the entry that has it. -/
theorem idxOf?_keys_eq_some_iff (h : t.keys.Nodup) {key : String × String} {slot : Nat} :
    t.keys.idxOf? key = some slot ↔ ∃ e, t.entries[slot]? = some e ∧ e.key = key := by
  rw [List.idxOf?_eq_some_iff]
  constructor
  · rintro ⟨hlt, hkey, -⟩
    have hlt' : slot < t.entries.length := by rwa [keys, List.length_map] at hlt
    exact ⟨t.entries[slot], List.getElem?_eq_getElem hlt', by simpa [keys] using hkey⟩
  · rintro ⟨e, he, hkey⟩
    have hslot : t.keys[slot]? = some key := by rw [keys, List.getElem?_map, he, ← hkey]; rfl
    obtain ⟨hlt, hget⟩ := List.getElem?_eq_some_iff.1 hslot
    refine ⟨hlt, hget, fun j hj heq => ?_⟩
    exact absurd ((h.getElem_inj_iff).1 (heq.trans hget.symm)) (Nat.ne_of_lt hj)

/-- Whether case is folded or not, after any definitions a lookup finds the entry that the last
definition of its normalized key makes. The entries have each key that has been defined once, in the
order of the first definitions, and every entry is found under its own names; their number is that
of the keys, and those of a context are the part of them that belongs to it. Were the slots kept in
an index, it would lead from every key to the entry that has it and from no other key anywhere, so
that no definition or lookup would fail. -/
theorem ofDefinitions_lastWrites (foldCase : Bool) (ds : List Definition) :
    let t := ofDefinitions foldCase ds
    let defined := ds.map (Definition.key foldCase)
    -- lookups
    (∀ context label, t.lookup? context label = (ds.reverse.find? fun d =>
        d.key foldCase == (normalizeName foldCase context, normalizeName foldCase label)).map
          (Definition.entry foldCase)) ∧
      -- entries
      (∀ key, key ∈ t.entries.map SymbolEntry.key ↔ key ∈ defined) ∧
      ((t.entries.map SymbolEntry.key).Pairwise fun key key' =>
        defined.idxOf key < defined.idxOf key') ∧
      (∀ e ∈ t.entries, t.lookup? e.context e.label = some e) ∧
      t.size = defined.toFinset.card ∧
      (∀ context, (t.entriesIn context).Sublist t.entries ∧
        ∀ e, e ∈ t.entriesIn context ↔
          e ∈ t.entries ∧ e.context = normalizeName foldCase context) ∧
      -- slots
      ∃ indexed, IndexedTable.ofDefinitions? foldCase ds = some indexed ∧
        indexed.entries.toList = t.entries ∧
        (∀ (key : String × String) (slot : Nat), indexed.index[key]? = some slot ↔
          ∃ e, t.entries[slot]? = some e ∧ e.key = key) ∧
        ∀ context label, indexed.lookup? context label = some (t.lookup? context label) := by
  intro t defined
  refine ⟨fun context label => ?_, mem_keys_ofDefinitions, pairwise_keys_ofDefinitions foldCase ds,
    fun e => lookup?_of_mem, size_ofDefinitions foldCase ds, fun context => ⟨?_, fun e => ?_⟩, ?_⟩
  · rw [lookup?_eq_get?, get?_ofDefinitions, keyOf_ofDefinitions]
  · exact List.filter_sublist
  · rw [entriesIn, List.mem_filter, beq_iff_eq, normalize, foldCase_ofDefinitions]
  · obtain ⟨indexed, hindexed, hrep⟩ := represents_ofDefinitions foldCase ds
    refine ⟨indexed, hindexed, hrep.entries, fun key slot => ?_, hrep.lookup?⟩
    rw [hrep.index]
    exact idxOf?_keys_eq_some_iff (nodup_keys_ofDefinitions foldCase ds)

example :
    (ofDefinitions true [⟨"rec", "a", 0, 4⟩, ⟨"REC", "B", 4, 2⟩, ⟨"Rec ", " A", 16, 8⟩]).entries =
      [⟨"A", 16, 8, "REC"⟩, ⟨"B", 4, 2, "REC"⟩] := by decide +kernel

end SymbolTable
end AsmLayout
