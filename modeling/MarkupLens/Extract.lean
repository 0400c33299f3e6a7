/-
Extraction: the context that a rendered page shows. Each element gives a
record of what its markers bind; an element that is no container merges its
children's records into its own, a loop binds one record per child element,
a scope the merge of its children's records.

The markers of one element are read in the order content, attributes, flags,
container, those of one sort in the order of their names, and later writes
win. A flag that was off has left no trace and comes back as empty text.
-/
import MarkupLens.Context.Basic
import MarkupLens.Directive.Kind
import MarkupLens.Markup.Tree

namespace MarkupLens.Extract

/-- A marker of an element: what it binds, and its key. -/
structure Mark where
  binding : Binding
  key : Text
  deriving DecidableEq, Repr

/-- The marker that an attribute is, if its value is a key. -/
def mark? (table : DirectiveTable) (name : Text) (value : Option Text) : Option Mark :=
  match table.byMarker? name, value with
  | some kind, some key => if Text.isWord key then some ⟨kind.binding, key⟩ else none
  | _, _ => none

/-- The markers of an element, in the order of their names. -/
def marks (table : DirectiveTable) (attributes : Attributes) : List Mark :=
  attributes.filterMap fun p => mark? table p.1 p.2

/-- The key of a mark is a word. -/
theorem isWord_of_mem_marks {table : DirectiveTable} {attributes : Attributes} {m : Mark} (h : m ∈ marks table attributes) :
    Text.isWord m.key = true := by
  obtain ⟨a, -, hm⟩ := List.mem_filterMap.1 h
  unfold mark? at hm
  split at hm
  · split at hm
    · rename_i hword
      obtain rfl : _ = m := Option.some.inj hm
      exact hword
    · cases hm
  · cases hm

/-- The mark binds the content. -/
def Mark.isContent (m : Mark) : Bool := m.binding == .content

/-- The mark binds an attribute. -/
def Mark.isAttribute (m : Mark) : Bool := match m.binding with
  | .attribute _ => true
  | _ => false

/-- The mark binds a flag. -/
def Mark.isFlag (m : Mark) : Bool := match m.binding with
  | .boolean _ => true
  | _ => false

/-- What a mark that is no container binds its key to. -/
def Mark.value (m : Mark) (attributes : Attributes) (children : List Node) : Value :=
  match m.binding with
  | .attribute name => .text (((Keyed.lookup name attributes).getD none).getD [])
  | .boolean name => if (Keyed.lookup name attributes).isSome then .flag true else .text []
  | .content | .loop | .scope => .text (Text.trim (Node.contents children))

/-- The marks of an element in the order in which they are read, containers apart. -/
def ordered (ms : List Mark) : List Mark :=
  ms.filter Mark.isContent ++ ms.filter Mark.isAttribute ++ ms.filter Mark.isFlag

theorem mem_ordered {ms : List Mark} {m : Mark} : m ∈ ordered ms ↔ m ∈ ms ∧ m.binding.isContainer = false := by
  obtain ⟨b, key⟩ := m
  cases b <;>
    simp [ordered, Mark.isContent, Mark.isAttribute, Mark.isFlag, Binding.isContainer,
      show (Binding.loop == Binding.content) = false from rfl, show (Binding.scope == Binding.content) = false from rfl]

/-- The record of an element's own marks, containers apart. -/
def ownRecord (ms : List Mark) (attributes : Attributes) (children : List Node) : Context :=
  (ordered ms).foldl (fun record m => record.insert m.key (m.value attributes children)) .empty

/-- The container of an element. -/
def container? (ms : List Mark) : Option Mark := ms.find? (·.binding.isContainer)

mutual

/-- The record that a node gives; text gives none. -/
def ofNode (table : DirectiveTable) : Node → Context
  | .text _ => .empty
  | .element _ attributes children =>
    let ms := marks table attributes
    let own := ownRecord ms attributes children
    match container? ms with
    | none => mergeInto table own children
    | some m =>
      if m.binding = .loop then own.insert m.key (.list (ofEach table children))
      else own.insert m.key (.record (mergeInto table .empty children))

/-- The records of the elements among some nodes. -/
def ofEach (table : DirectiveTable) : List Node → List Context
  | [] => []
  | .text _ :: nodes => ofEach table nodes
  | .element tag attributes children :: nodes =>
    ofNode table (.element tag attributes children) :: ofEach table nodes

/-- The records of some nodes merged into one. -/
def mergeInto (table : DirectiveTable) (record : Context) : List Node → Context
  | [] => record
  | node :: nodes => mergeInto table (record.merge (ofNode table node)) nodes

end

/-- The context that a page shows, with the directives of a table. -/
def extractWith (table : DirectiveTable) (page : Text) : Context := mergeInto table .empty (Markup.parse page)

/-- The context that a page shows. -/
def extract (page : Text) : Context := extractWith .standard page

end MarkupLens.Extract
