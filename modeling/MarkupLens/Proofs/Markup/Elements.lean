/-
Where the elements of a page come from. Each open tag makes one element, and
the elements stand in the tree in the order of their tags, however the page is
nested or broken (`made_parse`): with the name and the attributes that are read
off the tag, and without children if the tag opens no body.

The proof runs along the stack of the builder. The tags read so far are those
of what is complete, followed for each open element, from outside in, by its
own tag and those of the elements in it (`Builder.Made`).
-/
import MarkupLens.Markup.Tree
import MarkupLens.Proofs.Markup.Boundary
import MarkupLens.Proofs.Markup.Scanning
import Mathlib.Data.List.Forall2

namespace MarkupLens

open Markup (attributesOf OpenElement Builder tokens)

/-! ## Elements in order -/

/-- The elements at and below the nodes, in the order of the page. -/
def Node.allElements : List Node → List Element
  | [] => []
  | .text _ :: ns => allElements ns
  | .element tag attributes children :: ns => ⟨tag, attributes, children⟩ :: allElements children ++ allElements ns

namespace Node

@[simp] theorem allElements_nil : allElements [] = [] := by rw [allElements]

@[simp] theorem allElements_text (s : Text) : allElements [.text s] = [] := by rw [allElements, allElements_nil]

@[simp] theorem allElements_element (tag : Text) (attributes : Attributes) (children : List Node) :
    allElements [.element tag attributes children] = ⟨tag, attributes, children⟩ :: allElements children := by
  rw [allElements, allElements_nil, List.append_nil]

theorem map_snd_elements (depth : Nat) (ns : List Node) : (elements depth ns).map (·.2) = allElements ns := by
  fun_induction elements depth ns with
  | case1 => rw [allElements_nil, List.map_nil]
  | case2 depth s ns ih => rw [allElements, ih]
  | case3 depth tag attributes children ns ihc ih =>
    rw [allElements, List.map_append, List.map_cons, ihc, ih]

theorem allElements_append (ns ms : List Node) : allElements (ns ++ ms) = allElements ns ++ allElements ms := by
  fun_induction allElements ns with
  | case1 => rfl
  | case2 s ns ih => rw [List.cons_append, allElements, ih]
  | case3 tag attributes children ns ihc ih =>
    rw [List.cons_append, allElements, ih, ← List.append_assoc, List.cons_append]

theorem allElements_node (e : OpenElement) :
    allElements [e.node] = ⟨e.tag, e.attributes, e.children⟩ :: allElements e.children :=
  allElements_element e.tag e.attributes e.children

end Node

/-- The element is what the open tag makes: it has the name of the tag, which is not empty, and of each attribute name
of the tag the first value, and of no other name any. A tag that opens no body makes an element without children. -/
structure Element.Made (t : Token) (e : Element) : Prop where
  tag : e.tag = (OpenTag.scan t.text).name
  named : e.tag ≠ []
  attributes : ∀ name, e.attributes.lookup name = ((OpenTag.scan t.text).attribute? name).map (·.value)
  sorted : e.attributes.Sorted
  childless : (OpenTag.scan t.text).hasBody = false → e.children = []

namespace Markup

/-- The attributes of the element that a tag makes are read off as from the tag. -/
theorem lookup_attributesOf_eq (tag : OpenTag) (name : Text) :
    Keyed.lookup name (attributesOf tag) = (tag.attribute? name).map (·.value) := by
  rw [lookup_attributesOf, OpenTag.attribute?]
  induction tag.attributes with
  | nil => rfl
  | cons a l ih =>
    rw [List.map_cons, Keyed.lookup, List.find?_cons]
    by_cases he : name = a.name
    · rw [if_pos he, he, BEq.rfl]
      rfl
    · have hne : (a.name == name) = false := by simpa using Ne.symm he
      rw [if_neg he, hne]
      exact ih

/-- The name of an open tag of a page starts with a letter. -/
theorem exists_letter_of_mem {page : Text} {t : Token} (ht : t ∈ tokens page) (hk : t.kind = .openTag) :
    ∃ d more, (OpenTag.scan t.text).name = d :: more ∧ d.isAlpha = true := by
  obtain ⟨u, htext, hu⟩ := isInside_of_mem ht (.inl hk)
  rw [hk, isInside_openTag] at hu
  obtain ⟨-, -, hparts⟩ := OpenTag.scan_parts u
  rw [htext]
  exact OpenTag.exists_letter hparts hu.1 (OpenTag.head?_inside _)

theorem made_of_scan {t : Token} (hname : (OpenTag.scan t.text).name ≠ []) {children : List Node}
    (h : (OpenTag.scan t.text).hasBody = false → children = []) :
    Element.Made t ⟨(OpenTag.scan t.text).name, attributesOf (OpenTag.scan t.text), children⟩ :=
  ⟨rfl, hname, lookup_attributesOf_eq _, sorted_attributesOf _, h⟩

namespace Builder

/-- The elements of the tree under construction are what those tags make, in order. An open element is what its tag
makes whatever children it will have had in the end. -/
inductive Made (done : List Node) : List OpenElement → List Token → Prop where
  | done {tags : List Token} (h : List.Forall₂ Element.Made tags (Node.allElements done)) : Made done [] tags
  | opened {e : OpenElement} {outer : List OpenElement} {t : Token} {tags inner : List Token}
    (houter : Made done outer tags) (he : ∀ children, Element.Made t ⟨e.tag, e.attributes, children⟩)
    (hinner : List.Forall₂ Element.Made inner (Node.allElements e.children)) :
    Made done (e :: outer) (tags ++ t :: inner)

variable {b : Builder} {tags more : List Token}

theorem Made.add (h : Made b.done b.opened tags) {n : Node}
    (hn : List.Forall₂ Element.Made more (Node.allElements [n])) :
    Made (b.add n).done (b.add n).opened (tags ++ more) := by
  obtain ⟨done, opened, pending⟩ := b
  cases h with
  | done h =>
    refine .done ?_
    show List.Forall₂ Element.Made _ (Node.allElements (done ++ [n]))
    rw [Node.allElements_append]
    exact List.rel_append h hn
  | opened houter he hinner =>
    rw [List.append_assoc, List.cons_append]
    refine .opened houter he ?_
    rw [Node.allElements_append]
    exact List.rel_append hinner hn

theorem Made.flush (h : Made b.done b.opened tags) : Made b.flush.done b.flush.opened tags := by
  unfold Builder.flush
  split
  · exact h
  · have hnone : List.Forall₂ Element.Made [] (Node.allElements [.text b.pending]) := by
      rw [Node.allElements_text]
      exact .nil
    have hadd := h.add hnone
    rwa [List.append_nil] at hadd

theorem Made.close (h : Made b.done b.opened tags) : Made b.close.done b.close.opened tags := by
  obtain ⟨done, opened, pending⟩ := b
  cases h with
  | done h => exact .done h
  | @opened e outer t tags inner houter he hinner =>
    refine Made.add (b := ⟨done, outer, pending⟩) houter ?_
    rw [Node.allElements_node]
    exact .cons (he e.children) hinner

/-- **One token** makes an element if it is an open tag. -/
theorem Made.step (h : Made b.done b.opened tags) {t : Token}
    (ht : t.kind = .openTag → (OpenTag.scan t.text).name ≠ []) :
    Made (b.step t).done (b.step t).opened (tags ++ [t].filter (·.kind == .openTag)) := by
  unfold Builder.step
  split
  case h_5 hk =>
    have htags : [t].filter (·.kind == .openTag) = [t] := by simp [hk]
    rw [htags]
    dsimp only
    split
    · rename_i hbody
      refine .opened h.flush (fun children => made_of_scan (ht hk) (by simp [hbody])) ?_
      rw [Node.allElements_nil]
      exact .nil
    · refine h.flush.add ?_
      rw [Node.allElements_element, Node.allElements_nil]
      exact .cons (made_of_scan (ht hk) fun _ => rfl) .nil
  case h_6 hk =>
    have htags : [t].filter (·.kind == .openTag) = [] := by simp [hk]
    rw [htags, List.append_nil]
    exact h.flush.close
  all_goals
    rename_i hk
    have htags : [t].filter (·.kind == .openTag) = [] := by simp [hk]
    rw [htags, List.append_nil]
    exact h

/-- **Tokens** make the elements of their open tags. -/
theorem Made.foldl (h : Made b.done b.opened tags) {ts : List Token}
    (hts : ∀ t ∈ ts, t.kind = .openTag → (OpenTag.scan t.text).name ≠ []) :
    Made (ts.foldl Builder.step b).done (ts.foldl Builder.step b).opened (tags ++ ts.filter (·.kind == .openTag)) := by
  induction ts generalizing b tags with
  | nil =>
    rw [List.filter_nil, List.append_nil]
    exact h
  | cons t ts ih =>
    rw [List.forall_mem_cons] at hts
    have hrest := ih (h.step hts.1) hts.2
    rw [List.append_assoc, ← List.filter_append] at hrest
    exact hrest

theorem Made.closeAll {done : List Node} {outer : List OpenElement} (h : Made done outer tags) {n : Node}
    (hn : List.Forall₂ Element.Made more (Node.allElements [n])) :
    List.Forall₂ Element.Made (tags ++ more) (Node.allElements (closeAll done n outer)) := by
  induction outer generalizing n tags more with
  | nil =>
    cases h with
    | done h =>
      rw [Builder.closeAll, Node.allElements_append]
      exact List.rel_append h hn
  | cons e outer ih =>
    cases h with
    | opened houter he hinner =>
      rw [Builder.closeAll, List.append_assoc, List.cons_append]
      refine ih houter ?_
      rw [Node.allElements_node, Node.allElements_append]
      exact .cons (he _) (List.rel_append hinner hn)

theorem Made.finish (h : Made b.done b.opened tags) : List.Forall₂ Element.Made tags (Node.allElements b.finish) := by
  have hflush := h.flush
  unfold Builder.finish
  dsimp only
  generalize b.flush = b at hflush
  obtain ⟨done, opened, pending⟩ := b
  cases hflush with
  | done h => exact h
  | @opened e outer t tags inner houter he hinner =>
    refine houter.closeAll ?_
    rw [Node.allElements_node]
    exact .cons (he _) hinner

end Builder

/-- **The open tags of a page** make its elements, one each and in order. -/
theorem made_parse (page : Text) : List.Forall₂ Element.Made ((tokens page).filter (·.kind == .openTag))
    ((Node.elements 0 (parse page)).map (·.2)) := by
  have hempty : Builder.Made Builder.empty.done Builder.empty.opened [] :=
    .done (by rw [Builder.empty, Node.allElements_nil]; exact .nil)
  rw [Node.map_snd_elements]
  refine (hempty.foldl fun t ht hk => ?_).finish
  obtain ⟨d, more, hname, -⟩ := exists_letter_of_mem ht hk
  rw [hname]
  exact List.cons_ne_nil d more

end Markup

end MarkupLens
