/-
Reading a YAML text as host data. Tags say what a scalar is; without one, a
plain scalar is what it looks like and any other a text. An alias stands for
the node with its anchor, and there is a limit to how deep nodes nest and to
how many aliases are followed.
-/
import MarkupLens.Json.Value
import MarkupLens.Yaml.Node

namespace MarkupLens.Yaml

/-! ## Scalars -/

/-- The tag of a name among the common ones. -/
def commonTag (name : Text) : TagBytes := Text.encode ("tag:yaml.org,2002:" ++ name)

/-- A tag of the text's own, whose meaning is not known here. -/
def isLocalTag (tag : TagBytes) : Bool := bareTag.isPrefixOf tag && (Text.decode? tag).isSome

/-- The value of something resolved, if it has one that host data can hold. -/
def Resolved.toJson? (text : Text) : Resolved → Option Json
  | .null | .notFinite => some .null
  | .bool b => some (.bool b)
  | .integer n => some (.number (.integer n))
  | .wideInteger => none
  | .double x => some (.number (.double x))
  | .text => some (.string text)

/-- The value of a scalar without a tag. -/
def untagged? (text : Text) (plain : Bool) : Option Json :=
  if plain then (resolve text).toJson? text else some (.string text)

/-- The value of a scalar that a tag says is a number with a fraction. -/
def fraction? (text : Text) : Option Json :=
  match resolveFraction text with
  | .text => none
  | r => r.toJson? text

/-- The value of a scalar with a tag. -/
def tagged? (tag : TagBytes) (text : Text) (plain : Bool) : Option Json :=
  if isLocalTag tag then none
  else if bareTag.isPrefixOf tag then untagged? text plain
  else if tag = commonTag "null" then (if !text.isEmpty && nulls.contains text then some .null else none)
  else if tag = commonTag "bool" then (bool? text).map .bool
  else if tag = commonTag "int" then (resolveWhole? text).bind (Resolved.toJson? text)
  else if tag = commonTag "float" then fraction? text
  else some (.string text)

/-- The value of a scalar. -/
def scalar? (tag : Option TagBytes) (text : Text) (plain : Bool) : Option Json :=
  match tag with
  | none => untagged? text plain
  | some tag => tagged? tag text plain

/-! ## Anchors -/

namespace Node

mutual

/-- The nodes with an anchor, a node before those in it. -/
def anchored (n : Node) : List (Nat × Node) :=
  match n with
  | .alias _ => []
  | .scalar p .. => (p.anchor.map (·, n)).toList
  | .sequence p items => (p.anchor.map (·, n)).toList ++ anchoredItems items
  | .mapping p members => (p.anchor.map (·, n)).toList ++ anchoredMembers members

/-- The same for the items of a sequence. -/
def anchoredItems : List Node → List (Nat × Node)
  | [] => []
  | n :: ns => anchored n ++ anchoredItems ns

/-- The same for the members of a mapping. -/
def anchoredMembers : List (Node × Node) → List (Nat × Node)
  | [] => []
  | (key, value) :: ms => anchored key ++ anchored value ++ anchoredMembers ms

end

mutual

/-- How many marks of nodes there are: one of a scalar or an alias, two round anything else. -/
def size : Node → Nat
  | .alias _ | .scalar .. => 1
  | .sequence _ items => 2 + sizeItems items
  | .mapping _ members => 2 + sizeMembers members

/-- The same for the items of a sequence. -/
def sizeItems : List Node → Nat
  | [] => 0
  | n :: ns => size n + sizeItems ns

/-- The same for the members of a mapping. -/
def sizeMembers : List (Node × Node) → Nat
  | [] => 0
  | (key, value) :: ms => size key + size value + sizeMembers ms

end

end Node

/-! ## Values -/

/-- A step of a conversion, which may fail. How many aliases may still be followed is kept. -/
abbrev Converts := StateT Nat Option

namespace Converts

/-- The node that an alias stands for; any other node itself. -/
def follow (table : List (Nat × Node)) : Node → Converts Node
  | .alias id => do
    match ← get with
    | 0 => failure
    | n + 1 =>
      set n
      table.lookup id
  | n => return n

/-- The text of a key, which must be a scalar. -/
def key (table : List (Nat × Node)) (n : Node) : Converts Text := do
  match ← follow table n with
  | .scalar _ text _ => return text
  | _ => failure

/-- A sequence or mapping must not have a tag of the text's own. -/
def checkTag (p : Properties) : Converts Unit := if p.tag.any isLocalTag then failure else return ()

/-- The value of a node, with so many sequences and mappings in each other. -/
def value (table : List (Nat × Node)) : (depth : Nat) → Node → Converts Json
  | 0, n => do
    match ← follow table n with
    | .scalar p text plain => scalar? p.tag text plain
    | _ => failure
  | depth + 1, n => do
    match ← follow table n with
    | .scalar p text plain => scalar? p.tag text plain
    | .sequence p items =>
      checkTag p
      return .array (← items.mapM (value table depth))
    | .mapping p members =>
      checkTag p
      let ms ← members.mapM fun m => do return (← key table m.1, ← value table depth m.2)
      return .object (Keyed.ofList ms)
    | .alias _ => failure

end Converts

/-- Sequences and mappings nest at most so deep. -/
def depthLimit : Nat := 128

/-- Aliases are followed at most so often for each mark of a node. -/
def aliasLimit : Nat := 100

/-- The value of a document's node. An anchor that is used again stands for the last node that has it. -/
def Node.toJson? (root : Node) : Option Json :=
  ((Converts.value root.anchored.reverse depthLimit root).run (aliasLimit * root.size)).map (·.1)

/-- The value of a YAML text; one without a document is null. -/
def read? (s : Text) : Option Json :=
  if s.all isAllowed then
    ((lexemes? s).bind document?).bind fun
      | some root => root.toJson?
      | none => some .null
  else none

end MarkupLens.Yaml
