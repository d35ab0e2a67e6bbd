import AsmLayout.Proofs.SymbolTable
import Mathlib.Data.List.Nodup

/-!
# Slots by key

A symbol table searches its entries for the slot of a key. An `IndexedTable` has the slots in a hash
map beside the entries instead, and an operation on it fails where the map leads past the entries.
Main statements: `IndexedTable.Represents.define` and `IndexedTable.Represents.lookup?` (no
operation fails, and both tables give the same answers).
-/

namespace AsmLayout

/-- The place of an element once a new one stands last. -/
theorem idxOf?_concat {α : Type} [BEq α] [LawfulBEq α] {l : List α} {a : α} (h : a ∉ l) (b : α) :
    (l ++ [a]).idxOf? b = if (a == b) = true then some l.length else l.idxOf? b := by
  rw [List.idxOf?, List.findIdx?_append, List.findIdx?_singleton]
  by_cases hab : a = b
  · subst hab
    have hnone : l.findIdx? (· == a) = none := List.idxOf?_eq_none_iff.2 h
    simp [hnone]
  · simp [hab]

namespace SymbolTable

variable {t : SymbolTable} {context label : String} {displacement : Int64} {length : UInt32}

/-- The keys of the entries, in order. -/
def keys (t : SymbolTable) : List (String × String) := t.entries.map SymbolEntry.key

theorem findIdx?_key (entries : List SymbolEntry) (key : String × String) :
    entries.findIdx? (·.key == key) = (entries.map SymbolEntry.key).idxOf? key := by
  rw [List.idxOf?, List.findIdx?_map]
  rfl

theorem slot?_eq_idxOf? : t.slot? context label = t.keys.idxOf? (context, label) :=
  findIdx?_key t.entries (context, label)

theorem map_key_placed (entries : List SymbolEntry) (e : SymbolEntry) :
    (placed entries e).map SymbolEntry.key =
      if e.key ∈ entries.map SymbolEntry.key then entries.map SymbolEntry.key
      else entries.map SymbolEntry.key ++ [e.key] := by
  induction entries with
  | nil => rfl
  | cons x entries ih =>
    rw [placed_cons]
    by_cases hx : x.key = e.key
    · simp [hx]
    · rw [if_neg hx, List.map_cons, List.map_cons, ih]
      by_cases he : e.key ∈ entries.map SymbolEntry.key
      · rw [if_pos he, if_pos (List.mem_cons_of_mem _ he)]
      · rw [if_neg he, if_neg, List.cons_append]
        rw [List.mem_cons]
        exact fun h => h.elim (fun heq => hx heq.symm) he

/-- A definition adds its key at the end, if it is new. -/
theorem keys_define : (t.define context label displacement length).keys =
    if t.keyOf context label ∈ t.keys then t.keys else t.keys ++ [t.keyOf context label] := by
  rw [define_eq]
  exact map_key_placed t.entries (t.made context label displacement length)

end SymbolTable

/-- A symbol table with the slot of every key in a hash map. -/
structure IndexedTable where
  foldCase : Bool
  entries : Array SymbolEntry
  index : Std.HashMap (String × String) Nat

namespace IndexedTable

def empty (foldCase : Bool) : IndexedTable := ⟨foldCase, #[], ∅⟩

/-- The key of a label in a context. -/
def keyOf (i : IndexedTable) (context label : String) : String × String :=
  (normalizeName i.foldCase context, normalizeName i.foldCase label)

/-- The table with a label defined, in place of any earlier definition. None if the slot of the
label is out of range. -/
def define? (i : IndexedTable) (context label : String) (displacement : Int64) (length : UInt32) :
    Option IndexedTable :=
  let entry : SymbolEntry :=
    ⟨normalizeName i.foldCase label, displacement, length, normalizeName i.foldCase context⟩
  match i.index[i.keyOf context label]? with
  | some slot =>
    if h : slot < i.entries.size then some { i with entries := i.entries.set slot entry h }
    else none
  | none =>
    some { i with
      entries := i.entries.push entry
      index := i.index.insert (i.keyOf context label) i.entries.size }

/-- The entry of a label, if it is defined. None if its slot is out of range. -/
def lookup? (i : IndexedTable) (context label : String) : Option (Option SymbolEntry) :=
  match i.index[i.keyOf context label]? with
  | some slot => i.entries[slot]?.map some
  | none => some none

variable {i : IndexedTable} {t : SymbolTable}

/-- The entries are those of the symbol table, and the index has the slots of their keys. -/
structure Represents (i : IndexedTable) (t : SymbolTable) : Prop where
  foldCase : i.foldCase = t.foldCase
  entries : i.entries.toList = t.entries
  index : ∀ key, i.index[key]? = t.keys.idxOf? key

theorem represents_empty (foldCase : Bool) : (empty foldCase).Represents (.empty foldCase) :=
  ⟨rfl, rfl, fun _ => Std.HashMap.getElem?_empty⟩

theorem Represents.keyOf (h : i.Represents t) : i.keyOf = t.keyOf := by
  funext context label
  rw [IndexedTable.keyOf, h.foldCase]
  rfl

/-- The slot of a key is in range, and an entry with that key stands there. -/
theorem Represents.exists_entry {key : String × String} {slot : Nat} (h : i.Represents t)
    (hslot : i.index[key]? = some slot) : ∃ e, i.entries[slot]? = some e ∧ e.key = key := by
  rw [h.index] at hslot
  obtain ⟨hlt, hkey, -⟩ := List.idxOf?_eq_some_iff.1 hslot
  have hlt' : slot < t.entries.length := by rwa [SymbolTable.keys, List.length_map] at hlt
  refine ⟨t.entries[slot], ?_, ?_⟩
  · rw [← Array.getElem?_toList, h.entries]
    exact List.getElem?_eq_getElem hlt'
  · simpa [SymbolTable.keys] using hkey

/-- A definition finds its slot in range and makes the entries and the slots of the symbol table. -/
theorem Represents.define (h : i.Represents t) (context label : String) (displacement : Int64)
    (length : UInt32) : ∃ i', i.define? context label displacement length = some i' ∧
      i'.Represents (t.define context label displacement length) := by
  have hkeyOf : i.keyOf context label = t.keyOf context label := by rw [h.keyOf]
  have hentry : (⟨normalizeName i.foldCase label, displacement, length,
      normalizeName i.foldCase context⟩ : SymbolEntry) =
      t.made context label displacement length := by rw [h.foldCase]; rfl
  have hplace : t.entries.findIdx? (·.key == (t.made context label displacement length).key) =
      i.index[i.keyOf context label]? := by
    rw [SymbolTable.findIdx?_key, h.index, hkeyOf]
    rfl
  have hkeys : (t.define context label displacement length).keys =
      if t.keyOf context label ∈ t.keys then t.keys else t.keys ++ [t.keyOf context label] :=
    SymbolTable.keys_define
  unfold define?
  simp only [hentry]
  cases hslot : i.index[i.keyOf context label]? with
  | some slot =>
    obtain ⟨e, he, -⟩ := h.exists_entry hslot
    obtain ⟨hlt, -⟩ := Array.getElem?_eq_some_iff.1 he
    have hmem : t.keyOf context label ∈ t.keys := by
      rw [h.index, hkeyOf] at hslot
      obtain ⟨_, hkey, -⟩ := List.idxOf?_eq_some_iff.1 hslot
      exact List.mem_of_getElem hkey
    refine ⟨_, dif_pos hlt, ⟨?_, ?_, fun key => ?_⟩⟩
    · rw [SymbolTable.foldCase_define, h.foldCase]
    · rw [SymbolTable.define_eq, Array.toList_set, h.entries]
      simp only [SymbolTable.placed, hplace, hslot]
    · rw [hkeys, if_pos hmem]
      exact h.index key
  | none =>
    have hnew : t.keyOf context label ∉ t.keys := by
      rw [h.index, hkeyOf] at hslot
      exact List.idxOf?_eq_none_iff.1 hslot
    refine ⟨_, rfl, ⟨?_, ?_, fun key => ?_⟩⟩
    · rw [SymbolTable.foldCase_define, h.foldCase]
    · rw [SymbolTable.define_eq, Array.toList_push, h.entries]
      simp only [SymbolTable.placed, hplace, hslot]
    · have hsize : i.entries.size = t.keys.length := by
        rw [← Array.length_toList, h.entries, SymbolTable.keys, List.length_map]
      rw [Std.HashMap.getElem?_insert, hkeys, if_neg hnew, hkeyOf, h.index, hsize]
      exact (idxOf?_concat hnew key).symm

/-- A lookup finds its slot in range and gives the entry of the symbol table. -/
theorem Represents.lookup? (h : i.Represents t) (context label : String) :
    i.lookup? context label = some (t.lookup? context label) := by
  have hlookup : t.lookup? context label =
      i.index[i.keyOf context label]?.bind fun slot => t.entries[slot]? := by
    rw [h.index, h.keyOf]
    show (t.slot? (t.normalize context) (t.normalize label)).bind _ = _
    rw [SymbolTable.slot?_eq_idxOf?]
    rfl
  rw [hlookup]
  unfold IndexedTable.lookup?
  cases hslot : i.index[i.keyOf context label]? with
  | none => rfl
  | some slot =>
    obtain ⟨e, he, -⟩ := h.exists_entry hslot
    have he' : t.entries[slot]? = some e := by rw [← h.entries, Array.getElem?_toList, he]
    simp only [he, Option.map_some, Option.bind_some, he']

end IndexedTable
end AsmLayout
