/-
The table that a TOML text describes: its sections carried out one after the
other.
-/
import MarkupLens.Toml.Reader

namespace MarkupLens.Toml

/-- Carries out a section. -/
def Table.addSection (t : Table) (s : Section) : Option Table :=
  match s.path.getLast? with
  | none => t.addStatements s.statements
  | some name =>
    let fill := if s.repeated then Table.append name s.statements else Table.define name s.statements
    t.change false fill s.path.dropLast

/-- The members of the table that a TOML text describes. -/
def read? (s : Text) : Option (List (Text × Toml)) :=
  ((sections? s).bind fun ss => ss.foldlM Table.addSection Table.fresh).map Table.members

end MarkupLens.Toml
