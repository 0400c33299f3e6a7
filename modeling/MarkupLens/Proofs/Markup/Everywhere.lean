/-
What holds of every element of a page. The elements of a parsed page have the
attributes of its open tags, wherever in the tree they come to stand, so a
property of the attributes of every open tag is one of every element
(`everyAmong_parse`). The proof follows the builder: the property holds of all
that is complete and all that is open (`Builder.Every`), and each token keeps
it.
-/
import MarkupLens.Markup.Tree

namespace MarkupLens

mutual

/-- The attributes of the element, and of every element below it, have the property. -/
def Node.Every (P : Attributes → Prop) : Node → Prop
  | .text _ => True
  | .element _ attributes children => P attributes ∧ Node.EveryAmong P children

/-- The attributes of every element at and below the nodes have the property. -/
def Node.EveryAmong (P : Attributes → Prop) : List Node → Prop
  | [] => True
  | n :: ns => n.Every P ∧ Node.EveryAmong P ns

end

variable {P : Attributes → Prop}

@[simp] theorem Node.every_text (s : Text) : (Node.text s).Every P := by
  rw [Node.Every]
  trivial

@[simp] theorem Node.everyAmong_nil : Node.EveryAmong P [] := by
  rw [Node.EveryAmong]
  trivial

theorem Node.EveryAmong.append {ns ms : List Node} (hn : EveryAmong P ns) (hm : EveryAmong P ms) :
    EveryAmong P (ns ++ ms) := by
  induction ns with
  | nil => exact hm
  | cons n ns ih =>
    rw [EveryAmong] at hn
    rw [List.cons_append, EveryAmong]
    exact ⟨hn.1, ih hn.2⟩

theorem Node.everyAmong_singleton {n : Node} (h : n.Every P) : EveryAmong P [n] := by
  rw [EveryAmong]
  exact ⟨h, everyAmong_nil⟩

namespace Markup

/-- The attributes of the open element, and of every element in it, have the property. -/
structure OpenElement.Every (P : Attributes → Prop) (e : OpenElement) : Prop where
  attributes : P e.attributes
  children : Node.EveryAmong P e.children

theorem OpenElement.Every.node {e : OpenElement} (h : e.Every P) : e.node.Every P := by
  rw [OpenElement.node, Node.Every]
  exact ⟨h.attributes, h.children⟩

theorem OpenElement.Every.child {e : OpenElement} (h : e.Every P) {n : Node} (hn : n.Every P) :
    OpenElement.Every P { e with children := e.children ++ [n] } :=
  ⟨h.attributes, h.children.append (Node.everyAmong_singleton hn)⟩

namespace Builder

/-- The attributes of every element of the tree under construction have the property. -/
structure Every (P : Attributes → Prop) (b : Builder) : Prop where
  done : Node.EveryAmong P b.done
  opened : ∀ e ∈ b.opened, e.Every P

variable {b : Builder}

theorem every_empty : Every P .empty := ⟨Node.everyAmong_nil, by simp [empty]⟩

theorem Every.outer {done : List Node} {e : OpenElement} {outer : List OpenElement} {pending : Text}
    (h : Every P ⟨done, e :: outer, pending⟩) : Every P ⟨done, outer, pending⟩ :=
  ⟨h.done, (List.forall_mem_cons.1 h.opened).2⟩

theorem Every.add (h : b.Every P) {n : Node} (hn : n.Every P) : (b.add n).Every P := by
  obtain ⟨done, opened, pending⟩ := b
  cases opened with
  | nil => exact ⟨h.done.append (Node.everyAmong_singleton hn), h.opened⟩
  | cons e outer =>
    obtain ⟨he, houter⟩ := List.forall_mem_cons.1 h.opened
    exact ⟨h.done, List.forall_mem_cons.2 ⟨he.child hn, houter⟩⟩

theorem Every.flush (h : b.Every P) : b.flush.Every P := by
  unfold Builder.flush
  split
  · exact ⟨h.done, h.opened⟩
  · have hadd : (b.add (.text b.pending)).Every P := h.add (Node.every_text _)
    exact ⟨hadd.done, hadd.opened⟩

theorem Every.close (h : b.Every P) : b.close.Every P := by
  obtain ⟨done, opened, pending⟩ := b
  cases opened with
  | nil => exact h
  | cons e outer => exact h.outer.add (h.opened e (by simp)).node

/-- **One token** keeps the property, if the attributes of an open tag have it. -/
theorem Every.step (h : b.Every P) {t : Token} (ht : t.kind = .openTag → P (attributesOf (OpenTag.scan t.text))) :
    (b.step t).Every P := by
  unfold Builder.step
  split
  · exact ⟨h.done, h.opened⟩
  · exact ⟨h.done, h.opened⟩
  · exact h
  · exact h
  · rename_i hk
    dsimp only
    split
    · exact ⟨h.flush.done, List.forall_mem_cons.2 ⟨⟨ht hk, Node.everyAmong_nil⟩, h.flush.opened⟩⟩
    · refine h.flush.add ?_
      rw [Node.Every]
      exact ⟨ht hk, Node.everyAmong_nil⟩
  · exact h.flush.close

/-- **Tokens** keep the property. -/
theorem Every.foldl (h : b.Every P) {ts : List Token}
    (hts : ∀ t ∈ ts, t.kind = .openTag → P (attributesOf (OpenTag.scan t.text))) : (ts.foldl Builder.step b).Every P := by
  induction ts generalizing b with
  | nil => exact h
  | cons t ts ih =>
    rw [List.forall_mem_cons] at hts
    exact ih (h.step hts.1) hts.2

theorem everyAmong_closeAll {done : List Node} (hd : Node.EveryAmong P done) {inner : Node} (hi : inner.Every P)
    {outer : List OpenElement} (ho : ∀ e ∈ outer, e.Every P) : Node.EveryAmong P (closeAll done inner outer) := by
  induction outer generalizing inner with
  | nil => exact hd.append (Node.everyAmong_singleton hi)
  | cons e outer ih =>
    obtain ⟨he, houter⟩ := List.forall_mem_cons.1 ho
    exact ih (he.child hi).node houter

theorem Every.finish (h : b.Every P) : Node.EveryAmong P b.finish := by
  have hflush := h.flush
  unfold Builder.finish
  dsimp only
  generalize b.flush = b at hflush
  obtain ⟨done, opened, pending⟩ := b
  cases opened with
  | nil => exact hflush.done
  | cons e outer =>
    obtain ⟨he, houter⟩ := List.forall_mem_cons.1 hflush.opened
    exact everyAmong_closeAll hflush.done he.node houter

end Builder

/-- **What holds of every open tag** holds of every element of the page. -/
theorem everyAmong_parse {page : Text}
    (h : ∀ t ∈ tokens page, t.kind = .openTag → P (attributesOf (OpenTag.scan t.text))) :
    Node.EveryAmong P (parse page) :=
  (Builder.every_empty.foldl h).finish

end Markup

end MarkupLens
