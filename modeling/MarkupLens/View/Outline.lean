/-
The tree of a page drawn with one line per node. In front of a node stands a
column for each element around it, a bar if that element has a later
sibling, and a branch or a corner.
-/
import MarkupLens.Markup.Tree

namespace MarkupLens.View

/-- The first characters of a text, and dots in place of the others. -/
def shorten (limit : Nat) (s : Text) : Text := if limit < s.length then s.take limit ++ "..." else s

/-- An attribute on a label. -/
def attributeLabel (name : Text) : Option Text → Text
  | some value => ' ' :: name ++ "=\"" ++ value ++ "\""
  | none => ' ' :: name

/-- The label of an element: its tag and attributes. -/
def elementLabel (tag : Text) (attributes : Attributes) : Text :=
  tag ++ attributes.flatMap fun p => attributeLabel p.1 p.2

/-- What a node is called on its line. -/
def label : Node → Text
  | .text s => "Text: " ++ shorten 30 (Text.trim s)
  | .element tag attributes _ => "Element: " ++ shorten 60 (elementLabel tag attributes)

/-- The branch to a node; the last one of its siblings gets a corner. -/
def connector (last : Bool) : Text := if last then "└─" else "├─"

/-- The column below a node. -/
def column (last : Bool) : Text := if last then "  " else "│ "

mutual

/-- The lines of a node and of all below it. -/
def outlineNode (columns : Text) (last : Bool) : Node → Text
  | .text s => columns ++ connector last ++ ' ' :: label (.text s) ++ ['\n']
  | .element tag attributes children =>
    columns ++ connector last ++ ' ' :: label (.element tag attributes children) ++ '\n' ::
      outlineNodes (columns ++ column last) children

/-- The lines of some siblings. -/
def outlineNodes (columns : Text) : List Node → Text
  | [] => []
  | n :: ns => outlineNode columns ns.isEmpty n ++ outlineNodes columns ns

end

/-- The drawing of a page's tree. -/
def outline (page : Text) : Text := outlineNodes [] (Markup.parse page)

end MarkupLens.View
