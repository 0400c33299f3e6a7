/-
Tokens and trees as JSON, for looking into a page: a token with its kind,
the bytes it covers and its text; an element with its tag, its attributes
(one without a value is `true`) and its children.
-/
import MarkupLens.Json.Printer
import MarkupLens.Markup.Tree

namespace MarkupLens.View

/-- A token and the bytes it covers. -/
def tokenRecord (t : Token) (bytes : Nat × Nat) : Json :=
  .object [("token", .string t.kind.name), ("start", .number (.integer bytes.1)),
    ("end", .number (.integer bytes.2)), ("text", .string t.text)]

/-- The tokens of a page. -/
def tokens (page : Text) : Json :=
  let ts := Markup.tokens page
  .array (ts.zipWith tokenRecord (Token.spansFrom 0 ts))

/-- The value of an attribute. -/
def attributeValue : Option Text → Json
  | some text => .string text
  | none => .bool true

mutual

/-- A node. -/
def node : Node → Json
  | .text s => .object [("text", .string s)]
  | .element tag attributes children =>
    .object [("element", .object [("tag", .string tag),
      ("attributes", .object (attributes.map fun p => (p.1, attributeValue p.2))),
      ("children", .array (nodes children))])]

/-- Some nodes. -/
def nodes : List Node → List Json
  | [] => []
  | n :: ns => node n :: nodes ns

end

/-- The tree of a page. -/
def tree (page : Text) : Json := .array (nodes (Markup.parse page))

end MarkupLens.View
