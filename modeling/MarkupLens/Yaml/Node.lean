/-
The nodes of a YAML document and the grammar that puts them together. Where
a node is left out an empty plain scalar stands in. An alias goes by the
number of its anchor.
-/
import MarkupLens.Keyed
import MarkupLens.Yaml.Lexeme

namespace MarkupLens.Yaml

/-- What stands in front of a node. -/
structure Properties where
  anchor : Option Nat
  tag : Option TagBytes
  deriving DecidableEq

/-- A node. -/
inductive Node where
  | alias (anchor : Nat)
  | scalar (properties : Properties) (text : Text) (plain : Bool)
  | sequence (properties : Properties) (items : List Node)
  | mapping (properties : Properties) (members : List (Node × Node))

/-- Nothing in front of a node. -/
def Properties.none : Properties := ⟨.none, .none⟩

/-- What stands in for a node that is left out. -/
def Node.empty (p : Properties) : Node := .scalar p [] true

/-- What is left to read, and what names stand for so far. -/
structure Source where
  lexemes : List Lexeme
  /-- what the handles of tags stand for -/
  handles : List (Text × TagBytes)
  /-- the numbers of the anchors -/
  anchors : Keyed Nat

/-- A step of the grammar, which may find that there is no such node. -/
abbrev Parses := StateT Source Option

namespace Parses

/-- The next lexeme. -/
def peek : Parses (Option Lexeme) := do return (← get).lexemes.head?

/-- Passes over a lexeme. -/
def drop : Parses Unit := modify fun s => { s with lexemes := s.lexemes.tail }

/-- Passes over a lexeme that must come. -/
def expect (l : Lexeme) : Parses Unit := do
  if (← peek) == some l then drop else failure

/-- Passes over a lexeme if it comes. -/
def dropIf (l : Lexeme) : Parses Bool := do
  if (← peek) == some l then
    drop
    return true
  else return false

/-- The number of an anchor. -/
def anchorNumber (name : Text) : Parses Nat := do Keyed.lookup name (← get).anchors

/-- Gives an anchor a number, which is how many other names there are. -/
def setAnchor (name : Text) : Parses Nat := do
  let s ← get
  set { s with anchors := s.anchors.insert name s.anchors.length }
  return s.anchors.length

/-- The tag that a handle and the rest stand for. -/
def resolveTag (handle : Text) (rest : TagBytes) : Parses TagBytes := do
  if handle.isEmpty then return rest
  let start ← (← get).handles.lookup handle
  return start ++ rest

/-- An anchor, if one comes. -/
def anchor : Parses (Option Text) := do
  match ← peek with
  | some (.anchor name) =>
    drop
    return some name
  | _ => return none

/-- A tag, if one comes. -/
def tag : Parses (Option TagBytes) := do
  match ← peek with
  | some (.tag handle rest) =>
    drop
    return some (← resolveTag handle rest)
  | _ => return none

/-- An anchor and a tag in either order, each of which may be missing. -/
def properties : Parses Properties := do
  let first ← anchor
  let tag ← tag
  let name ← match first with
    | some name => pure (some name)
    | none => anchor
  match name with
  | some name => return ⟨some (← setAnchor name), tag⟩
  | none => return ⟨none, tag⟩

/-! ## Nodes -/

mutual

/-- A node. In a block it may be a block; at the indentation of a key it may be items without an indentation of their
own. -/
def node (block indentless : Bool) : (steps : Nat) → Parses Node
  | 0 => failure
  | steps + 1 => do
    match ← peek with
    | some (.alias name) =>
      drop
      return .alias (← anchorNumber name)
    | _ =>
      let p ← properties
      match ← peek, block, indentless with
      | some .item, _, true => return .sequence p (← items true steps)
      | some (.scalar text plain), _, _ =>
        drop
        return .scalar (if p.tag == some bareTag then { p with tag := none } else p) text plain
      | some .openBracket, _, _ =>
        drop
        return .sequence p (← flowItems true steps)
      | some .openBrace, _, _ =>
        drop
        return .mapping p (← flowMembers true steps)
      | some .blockSequence, true, _ =>
        drop
        return .sequence p (← items false steps)
      | some .blockMapping, true, _ =>
        drop
        return .mapping p (← members steps)
      | _, _, _ => if p = .none then failure else return .empty p

/-- A node, or nothing where one of some lexemes comes. -/
def nodeUnless (block indentless : Bool) (ends : List Lexeme) : (steps : Nat) → Parses Node
  | 0 => failure
  | steps + 1 => do
    match ← peek with
    | some l => if ends.contains l then return .empty .none else node block indentless steps
    | none => failure

/-- Items in a block. -/
def items (indentless : Bool) : (steps : Nat) → Parses (List Node)
  | 0 => failure
  | steps + 1 => do
    if ← dropIf .item then
      let ends := if indentless then [.item, .key, .value, .blockEnd] else [.item, .blockEnd]
      let first ← nodeUnless true false ends steps
      return first :: (← items indentless steps)
    if !indentless then expect .blockEnd
    return []

/-- The members of a mapping in a block. -/
def members : (steps : Nat) → Parses (List (Node × Node))
  | 0 => failure
  | steps + 1 => do
    if ← dropIf .key then
      let key ← nodeUnless true true [.key, .value, .blockEnd] steps
      let value ← valueOf true [.key, .value, .blockEnd] steps
      return (key, value) :: (← members steps)
    expect .blockEnd
    return []

/-- The value of a key, which may be missing with its colon. -/
def valueOf (block : Bool) (ends : List Lexeme) : (steps : Nat) → Parses Node
  | 0 => failure
  | steps + 1 => do
    if ← dropIf .value then nodeUnless block block ends steps else return .empty .none

/-- Items between brackets, from one of them on. One with a colon in it is a mapping. -/
def flowItems (first : Bool) : (steps : Nat) → Parses (List Node)
  | 0 => failure
  | steps + 1 => do
    if ← dropIf .closeBracket then return []
    if !first then expect .comma
    if ← dropIf .closeBracket then return []
    let item ← if ← dropIf .key then pair steps else node false false steps
    return item :: (← flowItems false steps)

/-- The only member of a mapping between brackets. A key that is left out takes the lexeme in its place with it. -/
def pair : (steps : Nat) → Parses Node
  | 0 => failure
  | steps + 1 => do
    let ends := [.comma, .closeBracket]
    let key ← match ← peek with
      | some .value | some .comma | some .closeBracket =>
        drop
        pure (.empty .none)
      | _ => node false false steps
    let value ← valueOf false ends steps
    return .mapping .none [(key, value)]

/-- The members between braces, from one of them on. A key without a mark has no value. -/
def flowMembers (first : Bool) : (steps : Nat) → Parses (List (Node × Node))
  | 0 => failure
  | steps + 1 => do
    if ← dropIf .closeBrace then return []
    if !first then expect .comma
    if ← dropIf .closeBrace then return []
    let member ← if ← dropIf .key then
        let key ← nodeUnless false false [.value, .comma, .closeBrace] steps
        let value ← valueOf false [.comma, .closeBrace] steps
        pure (key, value)
      else
        let key ← node false false steps
        pure (key, .empty .none)
    return member :: (← flowMembers false steps)

end

/-! ## Documents -/

/-- The handles that need no directive. -/
def commonHandles : List (Text × TagBytes) := [("!", bareTag), ("!!", Text.encode "tag:yaml.org,2002:")]

/-- Reads directives. There is at most one of the version, which must be 1.1 or 1.2, and one of each handle. -/
def directives (versionSeen : Bool) : (steps : Nat) → Parses Unit
  | 0 => failure
  | steps + 1 => do
    match ← peek with
    | some (.directive (.version major minor)) =>
      if versionSeen || major != 1 || (minor != 1 && minor != 2) then failure
      drop
      directives true steps
    | some (.directive (.handle name start)) =>
      let s ← get
      if (s.handles.lookup name).isSome then failure
      set { s with handles := s.handles ++ [(name, start)] }
      drop
      directives versionSeen steps
    | _ => modify fun s => { s with handles := s.handles ++ commonHandles }

/-- Whether a lexeme ends the content of a document. -/
def endsContent : Option Lexeme → Bool
  | none | some (.directive _) | some .documentStart | some .documentEnd => true
  | _ => false

/-- Passes over the marks of the end of a document. -/
def dropEnds : Parses Unit := modify fun s => { s with lexemes := s.lexemes.dropWhile (· == .documentEnd) }

/-- The node of the only document there is, or none if there is no document. -/
def document (steps : Nat) : Parses (Option Node) := do
  match ← peek with
  | none => return none
  | some l =>
    directives false steps
    let explicit ← match l with
      | .directive _ =>
        expect .documentStart
        pure true
      | _ => dropIf .documentStart
    let root ← if explicit && endsContent (← peek) then pure (.empty .none) else node true false steps
    dropEnds
    if (← get).lexemes.isEmpty then return some root else failure

end Parses

/-- The node of the document that some lexemes make up, or none if they make up no document. Of two steps one takes a
lexeme. -/
def document? (ls : List Lexeme) : Option (Option Node) :=
  ((Parses.document (3 * ls.length + 3)).run ⟨ls, [], []⟩).map (·.1)

end MarkupLens.Yaml
