/-
Tables while they are put together. A table is defined once: by its header,
or by the dotted keys that lead through it. A header may still define a
table that so far was only on the way to another one.
-/
import MarkupLens.Toml.Value

namespace MarkupLens.Toml

mutual

/-- What a name of a table leads to. -/
inductive Item where
  | value (value : Toml)
  | table (table : Table)
  /-- a list of tables, the last one first -/
  | tables (last : Table) (before : List Table)

/-- A table under construction. -/
inductive Table where
  /-- `implicit` while no header has defined it, `dotted` if keys lead through it -/
  | mk (implicit dotted : Bool) (entries : List (Text × Item))

end

namespace Table

/-- The entries of a table. -/
def entries : Table → List (Text × Item)
  | .mk _ _ es => es

/-- No header has defined the table. -/
def implicit : Table → Bool
  | .mk i _ _ => i

/-- Keys lead through the table. -/
def dotted : Table → Bool
  | .mk _ d _ => d

/-- The table with other entries. -/
def withEntries (t : Table) (es : List (Text × Item)) : Table := .mk t.implicit t.dotted es

/-- The table with an item at a name. -/
def put (t : Table) (name : Text) (item : Item) : Table := t.withEntries (Keyed.insert name item t.entries)

/-- A table with nothing in it that a header defines. -/
def fresh : Table := .mk false false []

/-- Changes the table at the end of a path. Tables on the way are made if they are missing; of a list of
tables the last one is meant. A dotted key leads only through tables that no header has defined. -/
def change (dotted : Bool) (f : Table → Option Table) : (path : List Text) → Table → Option Table
  | [], t => f t
  | name :: path, t =>
    match Keyed.lookup name t.entries with
    | none => (change dotted f path (.mk true dotted [])).map fun inner => t.put name (.table inner)
    | some (.value _) => none
    | some (.tables last before) => (change dotted f path last).map fun inner => t.put name (.tables inner before)
    | some (.table inner) =>
      if dotted && !inner.implicit then none
      else (change dotted f path inner).map fun inner => t.put name (.table inner)

/-- Adds a value that must be new. Behind a path of names the table must be one of dotted keys, and directly
in a section it must not. -/
def addValue (direct : Bool) (name : Text) (v : Toml) (t : Table) : Option Table :=
  if t.dotted == direct then none
  else if (Keyed.lookup name t.entries).isSome then none
  else some (t.put name (.value v))

/-- Carries out a statement of a section. -/
def addStatement (t : Table) (s : List Text × Toml) : Option Table :=
  match s.1.getLast? with
  | none => none
  | some name => t.change true (addValue (s.1.length == 1) name s.2) s.1.dropLast

/-- Carries out the statements of a section. -/
def addStatements (t : Table) (ss : List (List Text × Toml)) : Option Table := ss.foldlM addStatement t

/-- The table that a header defines at a name, which may have been on the way to others. -/
def define (name : Text) (ss : List (List Text × Toml)) (t : Table) : Option Table :=
  let start := match Keyed.lookup name t.entries with
    | none => some fresh
    | some (.table inner) => if inner.implicit && !inner.dotted then some (.mk false false inner.entries) else none
    | some _ => none
  (start.bind (addStatements · ss)).map fun inner => t.put name (.table inner)

/-- A new last table of the list at a name. -/
def append (name : Text) (ss : List (List Text × Toml)) (t : Table) : Option Table :=
  (addStatements fresh ss).bind fun inner =>
    match Keyed.lookup name t.entries with
    | none => some (t.put name (.tables inner []))
    | some (.tables last before) => some (t.put name (.tables inner (last :: before)))
    | some _ => none

mutual

/-- The value of an item. -/
def itemValue : Item → Toml
  | .value v => v
  | .table t => .table (members t)
  | .tables last before => .array (tableValues before [.table (members last)])

/-- The members of a table. -/
def members : Table → List (Text × Toml)
  | .mk _ _ es => entryValues es

/-- The values of tables, the last one first, in front of some more. -/
def tableValues : List Table → List Toml → List Toml
  | [], more => more
  | t :: ts, more => tableValues ts (.table (members t) :: more)

/-- The members that entries are. -/
def entryValues : List (Text × Item) → List (Text × Toml)
  | [] => []
  | (name, item) :: es => (name, itemValue item) :: entryValues es

end

end Table

/-- The inline table of some statements. -/
def inlineTable? (ss : List (List Text × Toml)) : Option Toml :=
  (Table.fresh.addStatements ss).map fun t => .table t.members

end MarkupLens.Toml
