/-
What a page binds, in the order of the page. Each element binds its own
markers (`markers`), then come the elements below it, or, if it is a
container, the one value that its key is bound to. Extraction works from the
leaves and merges whole records into each other; what it gives is the record
that the list gives if its bindings are put in one after the other, from
nothing (`extract_in_order`).

The two agree because merging a record is putting in what it was made of
(`merge_insertAll`), so the records of the children dissolve into the list.
-/
import MarkupLens.Proofs.Extract.Marks
import MarkupLens.Proofs.Markup.Everywhere
import MarkupLens.Proofs.Text.ByteOrder
import Mathlib.Data.List.Sort

namespace MarkupLens

/-! ## Bindings put in one after the other -/

namespace Context

/-- The context with bindings put in, one after the other. -/
def insertAll (c : Context) (bindings : List (Text × Value)) : Context :=
  bindings.foldl (fun c b => c.insert b.1 b.2) c

variable {c : Context}

theorem insertAll_append (c : Context) (bs ds : List (Text × Value)) :
    c.insertAll (bs ++ ds) = (c.insertAll bs).insertAll ds := List.foldl_append ..

theorem entries_insertAll (c : Context) (bs : List (Text × Value)) :
    (c.insertAll bs).entries = c.entries.insertAll bs := by
  induction bs generalizing c with
  | nil => rfl
  | cons b bs ih => exact ih (c.insert b.1 b.2)

theorem Canonical.insertAll (h : c.Canonical) (bs : List (Text × Value)) : (c.insertAll bs).Canonical := by
  rw [Canonical, entries_insertAll]
  exact Keyed.Sorted.insertAll h bs

theorem get?_insertAll (c : Context) (bs : List (Text × Value)) (key : Text) :
    (c.insertAll bs).get? key = (Keyed.lookup key bs.reverse).or (c.get? key) := by
  rw [get?, entries_insertAll, Keyed.lookup_insertAll]
  rfl

/-- **Merging a record** is putting in what it was made of. -/
theorem merge_insertAll (h : c.Canonical) (bs : List (Text × Value)) :
    c.merge (empty.insertAll bs) = c.insertAll bs := by
  refine (h.merge _).ext (h.insertAll bs) fun key => ?_
  rw [get?_merge c (canonical_empty.insertAll bs), get?_insertAll, get?_insertAll, get?_empty, Option.or_none]

end Context

/-! ## What an element binds -/

mutual

/-- The runs of text at and below a node, in the order of the page. -/
def Node.texts : Node → List Text
  | .text s => [s]
  | .element _ _ children => Node.textsAmong children

/-- The runs of text at and below some nodes, in the order of the page. -/
def Node.textsAmong : List Node → List Text
  | [] => []
  | n :: ns => n.texts ++ Node.textsAmong ns

end

mutual

theorem Node.content_eq : ∀ n : Node, n.content = n.texts.flatten
  | .text s => by simp [Node.content, Node.texts]
  | .element _ _ children => by rw [Node.content, Node.texts, Node.contents_eq children]

theorem Node.contents_eq : ∀ ns : List Node, Node.contents ns = (Node.textsAmong ns).flatten
  | [] => rfl
  | n :: ns => by
    rw [Node.contents, Node.textsAmong, List.flatten_append, Node.content_eq n, Node.contents_eq ns]

end

namespace Extract

/-- What is read off an element for a marker that is no container: its text, trimmed, the text of an attribute, or
whether an attribute is there. -/
def reading (binding : Binding) (attributes : Attributes) (children : List Node) : Value :=
  match binding with
  | .attribute name => .text (((attributes.find? (·.1 == name)).bind (·.2)).getD [])
  | .boolean name => if attributes.any (·.1 == name) then .flag true else .text []
  | .content | .loop | .scope => .text (Text.trim (Node.textsAmong children).flatten)

/-- The markers of an element, each with the name of the attribute that it is. -/
def namedMarks (table : DirectiveTable) (attributes : Attributes) : List (Text × Mark) :=
  attributes.filterMap fun a => (mark? table a.1 a.2).map (a.1, ·)

/-- The markers of one sort, ascending in the bytes of their names. -/
def markers (table : DirectiveTable) (attributes : Attributes) (sort : Mark → Bool) : List Mark :=
  (((namedMarks table attributes).filter (sort ·.2)).insertionSort fun a b =>
    Text.encode a.1 < Text.encode b.1).map (·.2)

/-- What an element binds by itself: content first, then attributes, then flags. -/
def ownBindings (table : DirectiveTable) (attributes : Attributes) (children : List Node) : List (Text × Value) :=
  (markers table attributes Mark.isContent ++ markers table attributes Mark.isAttribute ++
    markers table attributes Mark.isFlag).map fun m => (m.key, reading m.binding attributes children)

/-- The marker that makes an element a container: the first one by name. -/
def containerMark? (table : DirectiveTable) (attributes : Attributes) : Option Mark :=
  (markers table attributes (·.binding.isContainer)).head?

mutual

/-- What is bound at and below a node, in the order of the page; what is below a container is in its value. -/
def bindings (table : DirectiveTable) : Node → List (Text × Value)
  | .text _ => []
  | .element _ attributes children =>
    ownBindings table attributes children ++
      match containerMark? table attributes with
      | none => bindingsAmong table children
      | some m =>
        [(m.key, if m.binding = .loop then .list (records table children)
          else .record (Context.empty.insertAll (bindingsAmong table children)))]

/-- What is bound at and below some nodes, in the order of the page. -/
def bindingsAmong (table : DirectiveTable) : List Node → List (Text × Value)
  | [] => []
  | n :: ns => bindings table n ++ bindingsAmong table ns

/-- The records of the elements among some nodes, each one taken alone. -/
def records (table : DirectiveTable) : List Node → List Context
  | [] => []
  | .text _ :: ns => records table ns
  | .element tag attributes children :: ns =>
    Context.empty.insertAll (bindings table (.element tag attributes children)) :: records table ns

end

variable {table : DirectiveTable} {attributes : Attributes}

theorem value_eq (m : Mark) (attributes : Attributes) (children : List Node) :
    m.value attributes children = reading m.binding attributes children := by
  have hfind : ∀ name, attributes.find? (·.1 == name) = (Keyed.lookup name attributes).map (name, ·) := by
    intro name
    induction attributes with
    | nil => rfl
    | cons a attributes ih =>
      by_cases h : name = a.1
      · simp [Keyed.lookup, h]
      · simp [Keyed.lookup, h, Ne.symm h, ih]
  have hany : ∀ name, attributes.any (·.1 == name) = (Keyed.lookup name attributes).isSome := by
    intro name
    rw [← List.isSome_find?, hfind, Option.isSome_map]
  unfold Mark.value reading
  cases m.binding with
  | «attribute» name =>
    dsimp only
    rw [hfind]
    cases Keyed.lookup name attributes <;> rfl
  | boolean name =>
    dsimp only
    rw [hany]
  | content | loop | scope =>
    dsimp only
    rw [Node.contents_eq]

theorem marks_eq (table : DirectiveTable) (attributes : Attributes) :
    marks table attributes = (namedMarks table attributes).map (·.2) := by
  rw [marks, namedMarks, List.map_filterMap]
  simp [Function.comp_def]

theorem pairwise_namedMarks (h : Keyed.Sorted attributes) :
    (namedMarks table attributes).Pairwise fun a b => Text.encode a.1 < Text.encode b.1 := by
  refine List.Pairwise.filterMap _ ?_ (List.pairwise_map.1 h)
  intro a b hlt x hx y hy
  obtain ⟨_, -, rfl⟩ := Option.map_eq_some_iff.1 hx
  obtain ⟨_, -, rfl⟩ := Option.map_eq_some_iff.1 hy
  exact Text.encode_lt_iff.2 hlt

/-- Where the attributes stand in the order of their names, so do the markers of each sort. -/
theorem markers_eq (h : Keyed.Sorted attributes) (sort : Mark → Bool) :
    markers table attributes sort = (marks table attributes).filter sort := by
  rw [markers, ((pairwise_namedMarks h).filter _).insertionSort_eq, marks_eq, List.filter_map]
  rfl

theorem ownRecord_eq (h : Keyed.Sorted attributes) (children : List Node) :
    ownRecord (marks table attributes) attributes children =
      Context.empty.insertAll (ownBindings table attributes children) := by
  rw [ownRecord, ordered, ownBindings, markers_eq h, markers_eq h, markers_eq h, Context.insertAll, List.foldl_map]
  simp only [value_eq]

theorem container?_eq (h : Keyed.Sorted attributes) :
    container? (marks table attributes) = containerMark? table attributes := by
  rw [container?, containerMark?, markers_eq h, List.head?_filter]

/-! ## The bindings put in -/

mutual

theorem ofNode_eq : ∀ n : Node, n.Every Keyed.Sorted → ofNode table n = Context.empty.insertAll (bindings table n)
  | .text _, _ => by rw [ofNode, bindings]; rfl
  | .element _ attributes children, h => by
    rw [Node.Every] at h
    obtain ⟨hsorted, hchildren⟩ := h
    have hown : (Context.empty.insertAll (ownBindings table attributes children)).Canonical :=
      Context.canonical_empty.insertAll _
    rw [ofNode, bindings, Context.insertAll_append, ownRecord_eq hsorted, container?_eq hsorted]
    cases containerMark? table attributes with
    | none => exact mergeInto_eq children hchildren hown
    | some m =>
      dsimp only
      rw [ofEach_eq children hchildren, mergeInto_eq children hchildren Context.canonical_empty]
      split <;> rfl

theorem mergeInto_eq : ∀ ns : List Node, Node.EveryAmong Keyed.Sorted ns → ∀ {r : Context}, r.Canonical →
    mergeInto table r ns = r.insertAll (bindingsAmong table ns)
  | [], _, r, _ => by rw [mergeInto, bindingsAmong]; rfl
  | n :: ns, h, r, hr => by
    rw [Node.EveryAmong] at h
    rw [mergeInto, bindingsAmong, Context.insertAll_append, ofNode_eq n h.1, Context.merge_insertAll hr]
    exact mergeInto_eq ns h.2 (hr.insertAll _)

theorem ofEach_eq : ∀ ns : List Node, Node.EveryAmong Keyed.Sorted ns → ofEach table ns = records table ns
  | [], _ => by rw [ofEach, records]
  | .text _ :: ns, h => by
    rw [Node.EveryAmong] at h
    rw [ofEach, records, ofEach_eq ns h.2]
  | .element tag attributes children :: ns, h => by
    rw [Node.EveryAmong] at h
    rw [ofEach, records, ofNode_eq (.element tag attributes children) h.1, ofEach_eq ns h.2]

end

theorem sorted_parse (page : Text) : Node.EveryAmong Keyed.Sorted (Markup.parse page) :=
  Markup.everyAmong_parse fun t _ _ => Markup.sorted_attributesOf (OpenTag.scan t.text)

/-- The page as an element without a name. -/
def pageNode (page : Text) : Node := .element [] [] (Markup.parse page)

theorem every_pageNode (page : Text) : (pageNode page).Every Keyed.Sorted := by
  rw [pageNode, Node.Every]
  exact ⟨Keyed.sorted_nil, sorted_parse page⟩

theorem extractWith_eq_ofNode (table : DirectiveTable) (page : Text) :
    extractWith table page = ofNode table (pageNode page) := by
  rw [pageNode, ofNode]
  rfl

/-- **Extraction is one pass in the order of the page, and the last write wins:** what a tree gives is what is bound in
it, put in one after the other from nothing. Each attribute of a tree stands once, in the order of the names; a parsed
page is such a tree, and what is extracted from the page is what the tree gives. -/
theorem extract_in_order (table : DirectiveTable) :
    (∀ n : Node, n.Every Keyed.Sorted → ofNode table n = Context.empty.insertAll (bindings table n)) ∧
      ∀ page, (pageNode page).Every Keyed.Sorted ∧ extractWith table page = ofNode table (pageNode page) :=
  ⟨fun n h => ofNode_eq n h, fun page => ⟨every_pageNode page, extractWith_eq_ofNode table page⟩⟩

/-- A page that binds one key at four places: on an element, inside it, in a loop, and after it. -/
def contestedPage : Text :=
  "<div class=a data-nyanDoneChecked=k data-nyanDoneClass=k><p data-nyanDoneString=k>b</p></div>" ++
    "<ul data-nyanDoneLoop=rows data-nyanLoop=k><li data-nyanDoneString=k> c </li></ul><i data-nyanDoneString=k>d</i>"

theorem extract_in_order_contestedPage :
    (pageNode contestedPage).Every Keyed.Sorted ∧
      ofNode .standard (pageNode contestedPage) = Context.empty.insertAll (bindings .standard (pageNode contestedPage)) ∧
      bindings .standard (pageNode contestedPage) =
        ([("k", .text "a"), ("k", .text []), ("k", .text "b"), ("rows", .list [.ofList [("k", .text "c")]]),
          ("k", .text "d")] : List (Text × Value)) ∧
      extractWith .standard contestedPage =
        .ofList [("k", .text "d"), ("rows", .list [.ofList [("k", .text "c")]])] := by
  have hpage := (extract_in_order .standard).2 contestedPage
  exact ⟨hpage.1, (extract_in_order .standard).1 _ hpage.1, by decide +kernel, by decide +kernel⟩

end Extract

end MarkupLens
