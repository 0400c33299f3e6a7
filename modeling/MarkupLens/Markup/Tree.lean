/-
Markup as a tree. Open tags nest by their order, whatever the names: every
close tag ends the innermost open element, one with nothing open is passed
over, and what is still open at the end is closed there. Comments,
declarations and blank text are left out, and of attributes of one name the
first is kept.

The tree is built by one step per token (`Builder.step`) on the stack of
open elements, so what two pieces of markup build together is what the
second builds from where the first one stopped.
-/
import MarkupLens.Keyed
import MarkupLens.Markup.Tag

namespace MarkupLens

open Text (allBlank trim)

/-- The attributes of an element by name; one without a value has `none`. -/
abbrev Attributes := Keyed (Option Text)

/-- A node of the tree. -/
inductive Node where
  | text (text : Text)
  | element (tag : Text) (attributes : Attributes) (children : List Node)

mutual

/-- The text of a node and of all below it, in order. -/
def Node.content : Node → Text
  | .text s => s
  | .element _ _ children => Node.contents children

/-- The text of all the nodes, in order. -/
def Node.contents : List Node → Text
  | [] => []
  | n :: ns => n.content ++ Node.contents ns

end

/-- An element, or the page itself as an element without a name. -/
structure Element where
  tag : Text
  attributes : Attributes
  children : List Node

namespace Element

/-- The page as an element. -/
def root (children : List Node) : Element := ⟨[], [], children⟩

/-- Only the page itself has no name. -/
def isRoot (e : Element) : Bool := e.tag.isEmpty

/-- The elements among some nodes. -/
def among : List Node → List Element
  | [] => []
  | .text _ :: ns => among ns
  | .element tag attributes children :: ns => ⟨tag, attributes, children⟩ :: among ns

/-- The text below an element, blanks at its ends taken off. -/
def textContent (e : Element) : Text := trim (Node.contents e.children)

end Element

/-- The elements at and below a list of nodes in the order of the page, each with its depth. -/
def Node.elements (depth : Nat) : List Node → List (Nat × Element)
  | [] => []
  | .text _ :: ns => elements depth ns
  | .element tag attributes children :: ns =>
    (depth, ⟨tag, attributes, children⟩) :: elements (depth + 1) children ++ elements depth ns

namespace Markup

/-- The attributes of a tag by name, the first of each name. -/
def attributesOf (tag : OpenTag) : Attributes :=
  tag.attributes.foldl (fun all a => Keyed.insertNew a.name a.value all) []

theorem lookup_attributesOf (tag : OpenTag) (name : Text) :
    Keyed.lookup name (attributesOf tag) = Keyed.lookup name (tag.attributes.map fun a => (a.name, a.value)) := by
  have hfold : ∀ (l : List Attribute) (all : Attributes),
      Keyed.lookup name (l.foldl (fun all a => Keyed.insertNew a.name a.value all) all) =
        (Keyed.lookup name all).or (Keyed.lookup name (l.map fun a => (a.name, a.value))) := by
    intro l
    induction l with
    | nil => simp
    | cons a l ih =>
      intro all
      rw [List.foldl_cons, ih, Keyed.lookup_insertNew, Option.or_assoc]
      by_cases he : name = a.name <;> simp [Keyed.lookup, he]
  exact (hfold tag.attributes []).trans (by simp)

theorem sorted_attributesOf (tag : OpenTag) : (attributesOf tag).Sorted :=
  List.foldlRecOn (motive := Keyed.Sorted) tag.attributes _ Keyed.sorted_nil fun _ h a _ => h.insertNew a.name a.value

/-- An element whose close tag has not come yet. -/
structure OpenElement where
  tag : Text
  attributes : Attributes
  children : List Node

/-- The element, closed. -/
def OpenElement.node (e : OpenElement) : Node := .element e.tag e.attributes e.children

/-- A tree under construction. -/
structure Builder where
  /-- the nodes of the page that are complete -/
  done : List Node
  /-- the open elements, the innermost first -/
  opened : List OpenElement
  /-- text that has not become a node yet -/
  pending : Text

namespace Builder

/-- Nothing yet. -/
def empty : Builder := ⟨[], [], []⟩

/-- A node added at the end of the innermost open element. -/
def add (node : Node) (b : Builder) : Builder :=
  match b.opened with
  | [] => { b with done := b.done ++ [node] }
  | e :: outer => { b with opened := { e with children := e.children ++ [node] } :: outer }

/-- The pending text becomes a node unless it is blank. -/
def flush (b : Builder) : Builder :=
  if allBlank b.pending then { b with pending := [] }
  else { b.add (.text b.pending) with pending := [] }

/-- The innermost open element is closed, if there is one. -/
def close (b : Builder) : Builder :=
  match b.opened with
  | [] => b
  | e :: outer => add e.node { b with opened := outer }

/-- What one token does. -/
def step (b : Builder) (t : Token) : Builder :=
  match t.kind with
  | .text | .strayAngle => { b with pending := b.pending ++ t.text }
  | .comment | .declaration => b
  | .openTag =>
    let b := b.flush
    let tag := OpenTag.scan t.text
    if tag.hasBody then { b with opened := ⟨tag.name, attributesOf tag, []⟩ :: b.opened }
    else b.add (.element tag.name (attributesOf tag) [])
  | .closeTag => b.flush.close

/-- The nodes of the page once all that is open is closed; `outer` are open elements from inside out, and
`inner` the element that was closed last. -/
def closeAll (done : List Node) (inner : Node) : List OpenElement → List Node
  | [] => done ++ [inner]
  | e :: outer => closeAll done (OpenElement.node { e with children := e.children ++ [inner] }) outer

/-- The finished tree. -/
def finish (b : Builder) : List Node :=
  let b := b.flush
  match b.opened with
  | [] => b.done
  | e :: outer => closeAll b.done e.node outer

end Builder

/-- The tree of a list of tokens. -/
def treeOf (tokens : List Token) : List Node := (tokens.foldl Builder.step .empty).finish

/-- The nodes of a page. -/
def parse (s : Text) : List Node := treeOf (tokens s)

end Markup

end MarkupLens
