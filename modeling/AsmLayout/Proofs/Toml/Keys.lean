import AsmLayout.Toml.Read
import Mathlib.Data.List.Nodup

/-!
# Keys of a TOML document

However a document is built up, by headers, dotted keys and braces, no table in it has a key twice.
The changes of a table preserve this (`Table.Distinct.put` and what follows it), and so does every
reader that makes one. Main statement: `Toml.distinct_of_parse?`.
-/

namespace AsmLayout.Toml

mutual

/-- In every table of the node, however deep, each key stands once. -/
inductive Node.Distinct : Node → Prop
  | boolean (b : Bool) : Node.Distinct (.boolean b)
  | integer (n : Int64) : Node.Distinct (.integer n)
  | other : Node.Distinct .other
  | inlineTable {members : Table} (h : Table.Distinct members) :
      Node.Distinct (.inlineTable members)
  | table {origin : Origin} {members : Table} (h : Table.Distinct members) :
      Node.Distinct (.table origin members)
  | tables {elements : List Table} (h : ∀ t ∈ elements, Table.Distinct t) :
      Node.Distinct (.tables elements)

/-- Each key stands once, here and in the tables of the members. -/
inductive Table.Distinct : Table → Prop
  | intro {t : Table} (keys : (t.map Prod.fst).Nodup) (nodes : ∀ m ∈ t, Node.Distinct m.2) :
      Table.Distinct t

end

variable {t t' inner : Table} {node : Node} {key step : String} {path : List String}
  {origin : Origin} {elements : List Table}

theorem Node.Distinct.of_table (h : (Node.table origin t).Distinct) : t.Distinct := by
  cases h
  assumption

theorem Node.Distinct.of_tables (h : (Node.tables elements).Distinct) :
    ∀ t ∈ elements, t.Distinct := by
  cases h
  assumption

theorem Node.Distinct.of_members? (h : node.Distinct) (hm : node.members? = some t) :
    t.Distinct := by
  cases h with
  | inlineTable h | table h => cases hm; exact h
  | boolean | integer | other | tables => cases hm

namespace Table

theorem distinct_nil : Distinct [] := .intro List.nodup_nil nofun

theorem Distinct.keys (h : t.Distinct) : (t.map Prod.fst).Nodup := by
  cases h
  assumption

theorem Distinct.lookup (h : t.Distinct) (hl : List.lookup key t = some node) : node.Distinct := by
  obtain ⟨keys, nodes⟩ := h
  obtain ⟨before, after, rfl, -⟩ := List.lookup_eq_some_iff.1 hl
  exact nodes (key, node) (by simp)

theorem Distinct.put (h : t.Distinct) (hn : node.Distinct) : (t.put key node).Distinct := by
  obtain ⟨keys, nodes⟩ := h
  unfold Table.put
  split
  · -- the key keeps its place
    have hsame : (t.map fun m => if m.1 == key then (key, node) else m).map Prod.fst =
        t.map Prod.fst := by
      rw [List.map_map]
      refine List.map_congr_left fun m _ => ?_
      by_cases hm : m.1 = key <;> simp [hm]
    refine .intro (hsame ▸ keys) fun m hm => ?_
    obtain ⟨m', hm', rfl⟩ := List.mem_map.1 hm
    split
    · exact hn
    · exact nodes m' hm'
  · next hnone =>
    have hnew : key ∉ t.map Prod.fst := by
      intro hmem
      obtain ⟨⟨key', node'⟩, hm, rfl⟩ := List.mem_map.1 hmem
      exact hnone (List.lookup_isSome_iff.2 ⟨_, hm, by simp⟩)
    have hkeys : ((t ++ [(key, node)]).map Prod.fst).Nodup := by
      rw [List.map_append, List.map_singleton]
      refine List.nodup_append.2 ⟨keys, List.nodup_singleton _, ?_⟩
      rintro name hname other hother rfl
      rw [List.mem_singleton.1 hother] at hname
      exact hnew hname
    exact .intro hkeys (List.forall_mem_append.2 ⟨nodes, List.forall_mem_singleton.2 hn⟩)

/-- The array of tables with another last element. -/
theorem distinct_replaceLast (h : (Node.tables elements).Distinct) (hinner : inner.Distinct) :
    (Node.tables (elements.dropLast ++ [inner])).Distinct := by
  have hinit : ∀ t ∈ elements.dropLast, t.Distinct := fun t ht =>
    h.of_tables t (List.dropLast_subset elements ht)
  exact .tables (List.forall_mem_append.2 ⟨hinit, List.forall_mem_singleton.2 hinner⟩)

theorem Distinct.insert? (h : t.Distinct) (hn : node.Distinct)
    (hi : Table.insert? path key node t = some t') : t'.Distinct := by
  induction path generalizing t t' with
  | nil =>
    unfold Table.insert? at hi
    split at hi <;> cases hi
    exact h.put hn
  | cons step path ih =>
    unfold Table.insert? at hi
    dsimp only at hi
    -- what stands under the step is distinct, and the rest of the path is added to it
    have hinner : ∀ {origin inner inner'}, Distinct inner →
        (if (path.isEmpty && origin != Origin.dotted) = true then none
          else Table.insert? path key node inner) = some inner' → Distinct inner' := by
      intro origin inner inner' hinner hsome
      split at hsome
      · cases hsome
      · exact ih hinner hsome
    split at hi
    · obtain ⟨inner', hsome, rfl⟩ := Option.map_eq_some_iff.1 hi
      exact h.put (.table (hinner distinct_nil hsome))
    · cases hi
    · next hl =>
      obtain ⟨inner', hsome, rfl⟩ := Option.map_eq_some_iff.1 hi
      exact h.put (.table (hinner (h.lookup hl).of_table hsome))
    · next elements hl =>
      obtain ⟨last, hlast, hi⟩ := Option.bind_eq_some_iff.1 hi
      obtain ⟨inner', hsome, hi⟩ := Option.bind_eq_some_iff.1 hi
      cases hi
      have hlast' := (h.lookup hl).of_tables last (List.mem_of_getLast? hlast)
      exact h.put (distinct_replaceLast (h.lookup hl) (hinner hlast' hsome))
    · cases hi

/-- A change under a header's path preserves what the change itself preserves. -/
theorem Distinct.modify? {change : Table → Option Table}
    (hchange : ∀ {t t'}, Distinct t → change t = some t' → Distinct t') (h : t.Distinct)
    (hm : Table.modify? path change t = some t') : t'.Distinct := by
  induction path generalizing t t' with
  | nil => exact hchange h hm
  | cons step path ih =>
    unfold Table.modify? at hm
    split at hm
    · obtain ⟨inner', hsome, rfl⟩ := Option.map_eq_some_iff.1 hm
      exact h.put (.table (ih distinct_nil hsome))
    · next hl =>
      obtain ⟨inner', hsome, rfl⟩ := Option.map_eq_some_iff.1 hm
      exact h.put (.table (ih (h.lookup hl).of_table hsome))
    · next elements hl =>
      obtain ⟨last, hlast, hm⟩ := Option.bind_eq_some_iff.1 hm
      obtain ⟨inner', hsome, hm⟩ := Option.bind_eq_some_iff.1 hm
      cases hm
      have hlast' := (h.lookup hl).of_tables last (List.mem_of_getLast? hlast)
      exact h.put (distinct_replaceLast (h.lookup hl) (ih hlast' hsome))
    · cases hm

theorem Distinct.openTable? (h : t.Distinct) (ho : Table.openTable? key t = some t') :
    t'.Distinct := by
  unfold Table.openTable? at ho
  split at ho
  · cases ho
    exact h.put (.table distinct_nil)
  · next hl =>
    cases ho
    exact h.put (.table (h.lookup hl).of_table)
  · cases ho

theorem Distinct.openElement? (h : t.Distinct) (ho : Table.openElement? key t = some t') :
    t'.Distinct := by
  unfold Table.openElement? at ho
  split at ho
  · cases ho
    exact h.put (.tables (by simpa using distinct_nil))
  · next elements hl =>
    cases ho
    have helements := (h.lookup hl).of_tables
    have hnew : ∀ t ∈ [[]], Distinct t := List.forall_mem_singleton.2 distinct_nil
    exact h.put (.tables (List.forall_mem_append.2 ⟨helements, hnew⟩))
  · cases ho

end Table

/-- Whatever the reader makes has the property. -/
def Yields {α : Type} (P : α → Prop) (r : Reader α) : Prop :=
  ∀ cs a rest, r cs = some (a, rest) → P a

namespace Yields

variable {α β : Type} {P : α → Prop} {Q : β → Prop}

theorem any (r : Reader α) : Yields (fun _ => True) r := fun _ _ _ _ => trivial

theorem pure {a : α} (h : P a) : Yields P (pure a) := by
  intro cs a' rest hr
  cases hr
  exact h

theorem failure : Yields P failure := by
  intro cs a rest hr
  cases hr

theorem lift {o : Option α} (h : ∀ a, o = some a → P a) : Yields P (liftM o) := by
  intro cs a rest hr
  cases o with
  | none => cases hr
  | some a' => cases hr; exact h a rfl

theorem bind {r : Reader α} {f : α → Reader β} (hr : Yields P r) (hf : ∀ a, P a → Yields Q (f a)) :
    Yields Q (r >>= f) := by
  intro cs b rest hb
  obtain ⟨⟨a, cs'⟩, ha, hb⟩ := Option.bind_eq_some_iff.1 hb
  exact hf a (hr cs a cs' ha) cs' b rest hb

/-- What a reader makes that does not matter to the next. -/
theorem next {r : Reader α} {f : α → Reader β} (hf : ∀ a, Yields Q (f a)) : Yields Q (r >>= f) :=
  (any r).bind fun a _ => hf a

end Yields

theorem distinct_of_scalar? {run : List Char} (h : scalar? run = some node) : node.Distinct := by
  unfold scalar? at h
  repeat' split at h
  all_goals cases h
  · exact .boolean true
  · exact .boolean false
  · exact .integer _
  · exact .other

theorem scalar_distinct : Yields Node.Distinct scalar := by
  unfold scalar
  refine .next fun cs => .bind (.lift fun node => distinct_of_scalar?) fun node hnode => ?_
  refine .next fun _ => ?_
  split
  · exact .next fun _ => .pure hnode
  · exact .pure hnode

theorem inlineMembers_distinct {value : Reader Node} (hvalue : Yields Node.Distinct value)
    (rounds : Nat) {members : Table} (h : members.Distinct) :
    Yields Table.Distinct (inlineMembers value rounds members) := by
  induction rounds generalizing members with
  | zero => exact .failure
  | succ rounds ih =>
    unfold inlineMembers
    refine .next fun ⟨path, last⟩ => .next fun _ => .next fun _ => ?_
    refine hvalue.bind fun node hnode => ?_
    refine Yields.bind (.lift fun _ => h.insert? hnode) fun members' hmembers' => ?_
    refine .next fun _ => .next fun c => ?_
    split
    · exact .next fun _ => ih hmembers'
    · exact .next fun _ => .pure hmembers'

theorem value_distinct (depth : Nat) : Yields Node.Distinct (value depth) := by
  induction depth with
  | zero =>
    unfold value
    refine .next fun c => ?_
    split
    · exact .next fun _ => .pure .other
    · exact .next fun _ => .pure .other
    · exact .failure
    · exact .failure
    · exact scalar_distinct
  | succ depth ih =>
    unfold value
    refine .next fun c => ?_
    split
    · exact .next fun _ => .pure .other
    · exact .next fun _ => .pure .other
    · exact .next fun _ => .next fun _ => .next fun _ => .pure .other
    · refine .next fun _ => .next fun _ => .next fun c => ?_
      split
      · exact .next fun _ => .pure (.inlineTable Table.distinct_nil)
      · refine .next fun cs => ?_
        exact (inlineMembers_distinct ih _ Table.distinct_nil).bind fun members hmembers =>
          .pure (.inlineTable hmembers)
    · exact scalar_distinct

namespace Document

variable {d : Document}

theorem header_distinct (h : d.root.Distinct) :
    Yields (fun d' => d'.root.Distinct) d.header := by
  -- the table is opened at the end of its path, whichever kind it is
  have hopen : ∀ (path : List String) (last : String) (openAt : Table → Option Table),
      openAt = Table.openElement? last ∨ openAt = Table.openTable? last →
        Yields (fun d' : Document => d'.root.Distinct)
          (do lineEnd; return ⟨← d.root.modify? path openAt, path ++ [last]⟩) := by
    intro path last openAt hcases
    refine .next fun _ => Yields.bind (.lift fun root hroot => ?_) fun root hroot => .pure hroot
    refine h.modify? (fun {t t'} ht ht' => ?_) hroot
    rcases hcases with rfl | rfl
    · exact ht.openElement? ht'
    · exact ht.openTable? ht'
  unfold header
  refine .next fun c => ?_
  by_cases hc : c = some '['
  · simp only [hc, if_true]
    exact .next fun _ => .next fun ⟨path, last⟩ => .next fun _ => .next fun _ =>
      hopen path last _ (.inl rfl)
  · simp only [hc, if_false]
    exact .next fun ⟨path, last⟩ => .next fun _ => hopen path last _ (.inr rfl)

theorem member_distinct (h : d.root.Distinct) :
    Yields (fun d' => d'.root.Distinct) d.member := by
  unfold member
  refine .next fun ⟨path, last⟩ => .next fun _ => .next fun _ => ?_
  refine (value_distinct maxDepth).bind fun node hnode => .next fun _ => ?_
  refine Yields.bind (.lift fun root hroot => ?_) fun root hroot => .pure hroot
  exact h.modify? (fun h => h.insert? hnode) hroot

theorem lines_distinct (rounds : Nat) (h : d.root.Distinct) :
    Yields (fun d' => d'.root.Distinct) (lines rounds d) := by
  induction rounds generalizing d with
  | zero => exact .failure
  | succ rounds ih =>
    unfold lines
    refine .next fun _ => .next fun c => ?_
    split
    · exact .pure h
    · exact .next fun _ => (header_distinct h).bind fun d' => ih
    · exact .next fun _ => ih h
    · exact .next fun _ => ih h
    · exact .next fun _ => ih h
    · exact (member_distinct h).bind fun d' => ih

end Document

/-- No table of a document has a key twice. -/
theorem distinct_of_parse? {text : String} (h : parse? text = some t) : t.Distinct := by
  obtain ⟨⟨d, rest⟩, hlines, rfl⟩ := Option.map_eq_some_iff.1 h
  have hempty : (⟨[], []⟩ : Document).root.Distinct := Table.distinct_nil
  exact Document.lines_distinct _ hempty _ d rest hlines

end AsmLayout.Toml
