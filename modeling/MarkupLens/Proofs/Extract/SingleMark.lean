/-
Pages with the markers of one element. An element without markers gives what
its children give, so on a page where no other element is marked every node
gives that element's record or none, however the page is nested and whatever
is left open (`Builder.Carries`); merged, they are that record
(`extract_single`).
-/
import MarkupLens.Proofs.Extract.Marks
import Mathlib.Tactic.Tauto

namespace MarkupLens

open Text (allBlank trim)
open Extract (ofNode mergeInto marks mark? Mark)

variable {table : DirectiveTable} {d : Context}

namespace Extract

/-- The record is that one, or empty. -/
def Within (d r : Context) : Prop := r = .empty ∨ r = d

theorem Within.merge (hd : d.Canonical) {r s : Context} (hr : Within d r) (hs : Within d s) :
    Within d (r.merge s) ∧ (r = d ∨ s = d → r.merge s = d) := by
  have hself : d.merge d = d := by
    refine (hd.merge d).ext hd fun key => ?_
    rw [Context.get?_merge d hd, Option.or_self]
  have hsame : ∀ {s : Context}, Within d s → s.Canonical := by
    rintro s (rfl | rfl)
    · exact Context.canonical_empty
    · exact hd
  rcases hr with rfl | rfl
  · rw [Context.empty_merge (hsame hs)]
    refine ⟨hs, ?_⟩
    rintro (he | he)
    · -- where the record is empty there is nothing to tell apart
      rcases hs with rfl | rfl
      · exact he
      · rfl
    · exact he
  · rcases hs with rfl | rfl
    · rw [Context.merge_empty]
      exact ⟨.inr rfl, fun _ => rfl⟩
    · rw [hself]
      exact ⟨.inr rfl, fun _ => rfl⟩

/-- Nodes that give the record or none give it, merged, if one of them does. -/
theorem mergeInto_within (hd : d.Canonical) {ns : List Node} (hns : ∀ n ∈ ns, Within d (ofNode table n)) {r : Context}
    (hr : Within d r) :
    Within d (mergeInto table r ns) ∧ (r = d ∨ (∃ n ∈ ns, ofNode table n = d) → mergeInto table r ns = d) := by
  induction ns generalizing r with
  | nil =>
    rw [mergeInto]
    exact ⟨hr, by simp⟩
  | cons n ns ih =>
    rw [List.forall_mem_cons] at hns
    obtain ⟨hwithin, hgives⟩ := hr.merge hd hns.1
    obtain ⟨ih1, ih2⟩ := ih hns.2 hwithin
    rw [mergeInto]
    refine ⟨ih1, ?_⟩
    rintro (he | ⟨m, hm, he⟩)
    · exact ih2 (.inl (hgives (.inl he)))
    · rcases List.mem_cons.1 hm with rfl | hm
      · exact ih2 (.inl (hgives (.inr he)))
      · exact ih2 (.inr ⟨m, hm, he⟩)

/-- An element without markers gives what its children give. -/
theorem ofNode_of_no_marks {name : Text} {attributes : Attributes} (h : marks table attributes = [])
    (children : List Node) : ofNode table (.element name attributes children) = mergeInto table .empty children := by
  rw [ofNode]
  simp only [h]
  rfl

end Extract

open Extract (Within mergeInto_within ofNode_of_no_marks)

namespace Markup.Builder

/-- The nodes that are complete, those in open elements included. -/
def held (b : Builder) : List Node := b.done ++ b.opened.flatMap (·.children)

theorem mem_held_add {b : Builder} {n m : Node} : m ∈ (b.add n).held ↔ m ∈ b.held ∨ m = n := by
  obtain ⟨done, opened, pending⟩ := b
  cases opened with
  | nil => simp [held, Builder.add]
  | cons e outer =>
    simp only [held, Builder.add, List.flatMap_cons, List.mem_append, List.mem_singleton]
    tauto

/-- All nodes of the tree under construction give the record or none, and no open element is marked; once `found`, one
of the nodes gives it. -/
structure Carries (table : DirectiveTable) (d : Context) (found : Prop) (b : Builder) : Prop where
  within : ∀ n ∈ b.held, Within d (ofNode table n)
  unmarked : ∀ e ∈ b.opened, marks table e.attributes = []
  given : found → ∃ n ∈ b.held, ofNode table n = d

variable {found : Prop} {b : Builder}

theorem carries_empty : Carries table d False .empty := ⟨by simp [held, empty], by simp [empty], False.elim⟩

theorem Carries.add (h : Carries table d found b) {n : Node} (hn : Within d (ofNode table n)) :
    Carries table d (found ∨ ofNode table n = d) (b.add n) := by
  refine ⟨?_, ?_, ?_⟩
  · intro m hm
    rcases mem_held_add.1 hm with hm | rfl
    · exact h.within m hm
    · exact hn
  · obtain ⟨done, opened, pending⟩ := b
    have hopened := h.unmarked
    cases opened with
    | nil => simp [Builder.add]
    | cons e outer => simpa only [Builder.add, List.forall_mem_cons] using hopened
  · rintro (hf | he)
    · obtain ⟨m, hm, he⟩ := h.given hf
      exact ⟨m, mem_held_add.2 (.inl hm), he⟩
    · exact ⟨n, mem_held_add.2 (.inr rfl), he⟩

theorem Carries.flush (h : Carries table d found b) : Carries table d found b.flush := by
  unfold Builder.flush
  split
  · exact ⟨h.within, h.unmarked, h.given⟩
  · have hn : Within d (ofNode table (.text b.pending)) := .inl (by rw [ofNode])
    have hadd := h.add hn
    exact ⟨hadd.within, hadd.unmarked, fun hf => hadd.given (.inl hf)⟩

theorem Carries.close (hd : d.Canonical) (h : Carries table d found b) : Carries table d found b.close := by
  obtain ⟨done, opened, pending⟩ := b
  cases opened with
  | nil => exact h
  | cons e outer =>
    have hwithin := h.within
    simp only [held, List.flatMap_cons, List.forall_mem_append] at hwithin
    obtain ⟨hdone, hchildren, houter⟩ := hwithin
    have hunmarked := h.unmarked
    rw [List.forall_mem_cons] at hunmarked
    obtain ⟨hmerged, hgives⟩ := mergeInto_within hd hchildren (.inl rfl)
    have hnode : ofNode table e.node = mergeInto table .empty e.children := ofNode_of_no_marks hunmarked.1 _
    rw [← hnode] at hmerged hgives
    -- the nodes outside the element, and the element in place of those inside
    have houtside : Carries table d (∃ n ∈ done ++ outer.flatMap (·.children), ofNode table n = d) ⟨done, outer, pending⟩ :=
      ⟨by simpa only [held, List.forall_mem_append] using ⟨hdone, houter⟩, hunmarked.2, id⟩
    have hadd := houtside.add hmerged
    refine ⟨hadd.within, hadd.unmarked, fun hf => hadd.given ?_⟩
    obtain ⟨n, hn, he⟩ := h.given hf
    simp only [held, List.flatMap_cons, List.mem_append] at hn
    rcases hn with hn | hn | hn
    · exact .inl ⟨n, List.mem_append_left _ hn, he⟩
    · exact .inr (hgives (.inr ⟨n, hn, he⟩))
    · exact .inl ⟨n, List.mem_append_right _ hn, he⟩

/-- The attributes of an open tag, if it is one, are no markers. -/
def Unmarked (table : DirectiveTable) (t : Token) : Prop :=
  t.kind = .openTag → marks table (attributesOf (OpenTag.scan t.text)) = []

/-- **One token without markers** keeps what is carried. -/
theorem Carries.step (hd : d.Canonical) (h : Carries table d found b) {t : Token} (ht : Unmarked table t) :
    Carries table d found (b.step t) := by
  unfold Builder.step
  split
  · exact ⟨h.within, h.unmarked, h.given⟩
  · exact ⟨h.within, h.unmarked, h.given⟩
  · exact h
  · exact h
  · rename_i hk
    have hmarks := ht hk
    have hflush := h.flush
    dsimp only
    split
    · refine ⟨?_, ?_, ?_⟩
      · simpa [held] using hflush.within
      · exact List.forall_mem_cons.2 ⟨hmarks, hflush.unmarked⟩
      · simpa [held] using hflush.given
    · have hn : Within d (ofNode table (.element (OpenTag.scan t.text).name (attributesOf (OpenTag.scan t.text)) [])) :=
        .inl (by rw [ofNode_of_no_marks hmarks, mergeInto])
      have hadd := hflush.add hn
      exact ⟨hadd.within, hadd.unmarked, fun hf => hadd.given (.inl hf)⟩
  · exact h.flush.close hd

/-- **Tokens without markers** keep what is carried. -/
theorem Carries.foldl (hd : d.Canonical) (h : Carries table d found b) {ts : List Token}
    (hts : ∀ t ∈ ts, Unmarked table t) : Carries table d found (ts.foldl Builder.step b) := by
  induction ts generalizing b with
  | nil => exact h
  | cons t ts ih =>
    rw [List.forall_mem_cons] at hts
    exact ih (h.step hd hts.1) hts.2

theorem Carries.closeAll (hd : d.Canonical) (hf : found) {done : List Node} {inner : Node} {outer : List OpenElement}
    (pending : Text) (h : Carries table d found (Builder.add inner ⟨done, outer, pending⟩)) :
    mergeInto table .empty (closeAll done inner outer) = d := by
  induction outer generalizing inner with
  | nil =>
    have hwithin := h.within
    have hgiven := h.given hf
    simp only [held, Builder.add, List.flatMap_nil, List.append_nil] at hwithin hgiven
    exact (mergeInto_within hd hwithin (.inl rfl)).2 (.inr hgiven)
  | cons e outer ih => exact ih (h.close hd)

/-- **What is carried is given** by the finished tree. -/
theorem Carries.finish (hd : d.Canonical) (h : Carries table d found b) (hf : found) :
    mergeInto table .empty b.finish = d := by
  have hflush := h.flush
  unfold Builder.finish
  dsimp only
  generalize b.flush = b at hflush ⊢
  obtain ⟨done, opened, pending⟩ := b
  cases opened with
  | nil =>
    have hwithin := hflush.within
    have hgiven := hflush.given hf
    simp only [held, List.flatMap_nil, List.append_nil] at hwithin hgiven
    exact (mergeInto_within hd hwithin (.inl rfl)).2 (.inr hgiven)
  | cons e outer => exact Carries.closeAll hd hf pending (hflush.close hd)

/-- A text that is not blank is added as a node. -/
theorem flush_foldl_text {v : Text} (hv : allBlank v = false) {b : Builder} (hp : b.pending = []) :
    ([⟨.text, v⟩].foldl Builder.step b).flush = b.addAll [.text v] := by
  obtain ⟨done, opened, pending⟩ := b
  obtain rfl : pending = [] := hp
  rw [List.foldl_cons, List.foldl_nil, step_text, flush_eq, List.nil_append, Node.ofText, if_neg (by simp [hv])]

end Markup.Builder

open Markup.Builder (Unmarked)

/-- **A page with the marks of one element,** which holds a text: it gives the record of that element. -/
theorem extract_single {page : Text} {before after : List Token} {t close : Token} {v : Text}
    (hpage : Markup.tokens page = before ++ t :: ⟨.text, v⟩ :: close :: after) (hopen : t.kind = .openTag)
    (hb : (OpenTag.scan t.text).hasBody = true) (hclose : close.kind = .closeTag) (hv : allBlank v = false)
    (hbefore : ∀ u ∈ before, Unmarked table u) (hafter : ∀ u ∈ after, Unmarked table u) :
    Extract.extractWith table page =
      ofNode table (.element (OpenTag.scan t.text).name (Markup.attributesOf (OpenTag.scan t.text)) [.text v]) := by
  generalize hn : Node.element (OpenTag.scan t.text).name (Markup.attributesOf (OpenTag.scan t.text)) [.text v] = n
  have hd : (ofNode table n).Canonical := Extract.canonical_ofNode n
  have h1 := Markup.Builder.carries_empty.foldl hd hbefore
  have h2 := (h1.flush.add (n := n) (.inr rfl)).foldl hd hafter
  rw [Extract.extractWith, Markup.parse, hpage, Markup.treeOf, List.foldl_append]
  have hsplit : t :: ⟨.text, v⟩ :: close :: after = t :: ([⟨.text, v⟩] ++ [close]) ++ after := rfl
  rw [hsplit, List.foldl_append,
    Markup.Builder.foldl_element hopen hb hclose fun b hp => Markup.Builder.flush_foldl_text hv hp, hn]
  exact h2.finish hd (.inr rfl)

end MarkupLens
