/-!
# TOML tables

A TOML document is a table of keys and nodes, built up line by line. A table may be named several
times on the way to something inside it, but may be filled only once: by its header, by dotted keys
or by braces. `Origin` records which of these has happened, and `Table.insert?`, `Table.openTable?`
and `Table.openElement?` refuse what would define anything twice.
-/

namespace AsmLayout.Toml

/-- How a table came to be. -/
inductive Origin
  /-- By a header of its own. -/
  | header
  /-- As a step on the way to a header. -/
  | implied
  /-- As a step of a dotted key. -/
  | dotted
  deriving DecidableEq, Repr

/-- What a key stands for. -/
inductive Node
  | boolean (b : Bool)
  | integer (n : Int64)
  /-- A text, a float, a date, a time or an array. -/
  | other
  /-- A table in braces, complete as it is written. -/
  | inlineTable (members : List (String × Node))
  | table (origin : Origin) (members : List (String × Node))
  /-- An array of tables, opened by headers in double brackets; the last one can still be filled. -/
  | tables (elements : List (List (String × Node)))

/-- Keys and nodes in the order of their definition. -/
abbrev Table := List (String × Node)

namespace Table

/-- The table with another node under a key that it has, or with a new member. -/
def put (t : Table) (key : String) (node : Node) : Table :=
  if (t.lookup key).isSome then t.map fun m => if m.1 == key then (key, node) else m
  else t ++ [(key, node)]

/-- The table with a member added behind a dotted key. Steps that are missing become tables; those
that are there must have been left open, and the innermost by dotted keys alone. -/
def insert? (path : List String) (key : String) (node : Node) (t : Table) : Option Table :=
  match path with
  | [] => if (t.lookup key).isSome then none else some (t.put key node)
  | step :: path =>
    let inner? (origin : Origin) (inner : Table) : Option Table :=
      if path.isEmpty && origin != .dotted then none else insert? path key node inner
    match t.lookup step with
    | none => (inner? .dotted []).map fun inner => t.put step (.table .dotted inner)
    | some (.table .header _) => none
    | some (.table origin inner) =>
      (inner? origin inner).map fun inner => t.put step (.table origin inner)
    | some (.tables elements) => do
      let inner ← inner? .header (← elements.getLast?)
      some (t.put step (.tables (elements.dropLast ++ [inner])))
    | some _ => none

/-- The table with a change made to the table that a header's path leads to. -/
def modify? (path : List String) (change : Table → Option Table) (t : Table) : Option Table :=
  match path with
  | [] => change t
  | step :: path =>
    match t.lookup step with
    | none => (modify? path change []).map fun inner => t.put step (.table .implied inner)
    | some (.table origin inner) =>
      (modify? path change inner).map fun inner => t.put step (.table origin inner)
    | some (.tables elements) => do
      let inner ← modify? path change (← elements.getLast?)
      some (t.put step (.tables (elements.dropLast ++ [inner])))
    | some _ => none

/-- The table with the table `key` opened by a header. -/
def openTable? (key : String) (t : Table) : Option Table :=
  match t.lookup key with
  | none => some (t.put key (.table .header []))
  | some (.table .implied inner) => some (t.put key (.table .header inner))
  | some _ => none

/-- The table with a further element of the array of tables `key`. -/
def openElement? (key : String) (t : Table) : Option Table :=
  match t.lookup key with
  | none => some (t.put key (.tables [[]]))
  | some (.tables elements) => some (t.put key (.tables (elements ++ [[]])))
  | some _ => none

end Table

/-- The members of a node that is a single table. -/
def Node.members? : Node → Option Table
  | .inlineTable members | .table _ members => some members
  | _ => none

end AsmLayout.Toml
