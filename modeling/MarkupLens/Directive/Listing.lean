/-
The directives as a table in columns, one to a line.
-/
import MarkupLens.Directive.Kind

namespace MarkupLens

/-- A text filled up with spaces. -/
def Text.padTo (width : Nat) (s : Text) : Text := s ++ List.replicate (width - s.length) ' '

theorem Text.length_padTo (width : Nat) (s : Text) : (padTo width s).length = max width s.length := by
  simp only [padTo, List.length_append, List.length_replicate]
  omega

/-- A way of binding, with the attribute that it writes. -/
def Binding.description (b : Binding) : Text :=
  match b.target? with
  | some name => b.label ++ " (" ++ name ++ ")"
  | none => b.label

namespace DirectiveTable

/-- A line of the listing. -/
def listingLine (trigger marker binding : Text) : Text :=
  trigger.padTo 18 ++ ' ' :: marker.padTo 22 ++ ' ' :: binding ++ ['\n']

/-- The listing, below the names of its columns. -/
def listing (table : DirectiveTable) : Text :=
  listingLine "DIRECTIVE" "MARKER" "BINDING" ++
    table.flatMap fun kind => listingLine kind.trigger kind.marker kind.binding.description

end DirectiveTable

end MarkupLens
