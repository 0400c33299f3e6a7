/-
Formatting. Blank text and comments that are put in among the tokens of a page
change its tree: text that was blank and left out becomes part of a run of
text, or the other way round. But text that is not in an element that binds
its content is not looked at, neither by the records of the elements, nor by
containers, which count elements only (`Reformatted.gives`). So a page can be
formatted in any way outside of these elements, and what is extracted from it
stays the same (`extract_formatted`); and comments do not change the tree,
wherever they stand.

The builder of the tree is run on both pages side by side
(`Builder.Reformatted`). Once an open element binds its content, everything
that is added to the tree has to agree, until that element is closed.
-/
import MarkupLens.Proofs.Extract.StrayClose
import MarkupLens.Proofs.Markup.Fillers

namespace MarkupLens

open Extract (BindsContent mergeInto ofEach ofNode ownRecord marks)
open Markup (OpenElement Builder IsFiller Filled Keeps attributesOf closable tokens tail)

variable {table : DirectiveTable}

/-! ## Trees that differ in text that nothing binds -/

/-- The nodes differ in nothing but the text outside of elements that bind their content. -/
inductive Reformatted (table : DirectiveTable) : List Node → List Node → Prop where
  | nil : Reformatted table [] []
  | left (s : Text) {ns ms : List Node} (h : Reformatted table ns ms) : Reformatted table (.text s :: ns) ms
  | right (s : Text) {ns ms : List Node} (h : Reformatted table ns ms) : Reformatted table ns (.text s :: ms)
  | element (tag : Text) {attributes : Attributes} {children children' ns ms : List Node}
      (hchildren : Reformatted table children children') (hbinds : BindsContent table attributes → children = children')
      (h : Reformatted table ns ms) :
      Reformatted table (.element tag attributes children :: ns) (.element tag attributes children' :: ms)

namespace Extract

/-- An element that does not bind its content has a record of its own that does not depend on it. -/
theorem ownRecord_congr {attributes : Attributes} (h : ¬ BindsContent table attributes) (children children' : List Node) :
    ownRecord (marks table attributes) attributes children = ownRecord (marks table attributes) attributes children' := by
  refine List.foldl_ext _ _ _ fun record m hm => ?_
  obtain ⟨hmem, hcontainer⟩ := mem_ordered.1 hm
  obtain ⟨binding, key⟩ := m
  cases binding with
  | content => exact absurd ⟨_, hmem, rfl⟩ h
  | loop | scope => cases hcontainer
  | «attribute» name | boolean name => rfl

end Extract

namespace Reformatted

theorem append {ns ms ns' ms' : List Node} (h : Reformatted table ns ms) (h' : Reformatted table ns' ms') :
    Reformatted table (ns ++ ns') (ms ++ ms') := by
  induction h with
  | nil => exact h'
  | left s _ ih => exact .left s ih
  | right s _ ih => exact .right s ih
  | element tag hchildren hbinds _ _ ih => exact .element tag hchildren hbinds ih

theorem ofText (s s' : Text) : Reformatted table (Node.ofText s) (Node.ofText s') := by
  unfold Node.ofText
  split <;> split
  · exact .nil
  · exact .right _ .nil
  · exact .left _ .nil
  · exact .left _ (.right _ .nil)

/-- **Such trees give the same,** merged into any record or one record for each element. -/
theorem gives {ns ms : List Node} (h : Reformatted table ns ms) :
    (∀ r, mergeInto table r ns = mergeInto table r ms) ∧ ofEach table ns = ofEach table ms := by
  induction h with
  | nil => exact ⟨fun _ => rfl, rfl⟩
  | left s _ ih => exact ⟨fun r => (Extract.mergeInto_text r s _).trans (ih.1 r), by rw [ofEach, ih.2]⟩
  | right s _ ih => exact ⟨fun r => (ih.1 r).trans (Extract.mergeInto_text r s _).symm, by rw [ofEach, ih.2]⟩
  | @element tag attributes children children' ns ms _ hbinds _ ihchildren ih =>
    have hown : ownRecord (marks table attributes) attributes children =
        ownRecord (marks table attributes) attributes children' := by
      by_cases hb : BindsContent table attributes
      · rw [hbinds hb]
      · exact Extract.ownRecord_congr hb children children'
    have hnode : ofNode table (.element tag attributes children) = ofNode table (.element tag attributes children') := by
      rw [ofNode, ofNode, hown, ihchildren.1, ihchildren.1, ihchildren.2]
    exact ⟨fun r => by rw [mergeInto, mergeInto, hnode, ih.1], by rw [ofEach, ofEach, hnode, ih.2]⟩

end Reformatted

/-! ## The builder on both pages -/

namespace Markup

/-- Some open element binds its content. -/
def Bound (table : DirectiveTable) (opened : List OpenElement) : Prop := ∃ e ∈ opened, BindsContent table e.attributes

theorem bound_cons {e : OpenElement} {outer : List OpenElement} :
    Bound table (e :: outer) ↔ BindsContent table e.attributes ∨ Bound table outer := List.exists_mem_cons_iff _ _ _

/-- Open elements, one inside the other, that differ in nothing but text that no element binds, be it one that is still
open. -/
inductive ReformattedOpen (table : DirectiveTable) : List OpenElement → List OpenElement → Prop where
  | nil : ReformattedOpen table [] []
  | cons (tag : Text) {attributes : Attributes} {children children' : List Node} {outer outer' : List OpenElement}
      (hchildren : Reformatted table children children')
      (hbound : BindsContent table attributes ∨ Bound table outer → children = children')
      (h : ReformattedOpen table outer outer') :
      ReformattedOpen table (⟨tag, attributes, children⟩ :: outer) (⟨tag, attributes, children'⟩ :: outer')

namespace Builder

/-- The trees under construction differ in nothing but text that no element binds. -/
structure Reformatted (table : DirectiveTable) (b b' : Builder) : Prop where
  done : MarkupLens.Reformatted table b.done b'.done
  opened : ReformattedOpen table b.opened b'.opened
  pending : Bound table b.opened → b.pending = b'.pending

namespace Reformatted

variable {b b' : Builder} (h : Builder.Reformatted table b b')

include h

/-- Nodes are added to both trees, the same ones where an open element binds its content. -/
theorem addAll {ns ms : List Node} (hn : MarkupLens.Reformatted table ns ms) (hbound : Bound table b.opened → ns = ms) :
    Builder.Reformatted table (b.addAll ns) (b'.addAll ms) := by
  obtain ⟨done, opened, pending⟩ := b
  obtain ⟨done', opened', pending'⟩ := b'
  obtain ⟨hdone, hopened, hpending⟩ := h
  cases hopened with
  | nil =>
    rw [addAll_done, addAll_done]
    exact ⟨hdone.append hn, .nil, hpending⟩
  | cons tag hchildren hinner houter =>
    rw [addAll_opened, addAll_opened]
    refine ⟨hdone, .cons tag (hchildren.append hn) (fun hb => ?_) houter, fun hb => hpending ?_⟩
    · rw [hinner hb, hbound (bound_cons.2 hb)]
    · rwa [bound_cons] at hb ⊢

theorem flush : Builder.Reformatted table b.flush b'.flush := by
  have hnone : Builder.Reformatted table { b with pending := [] } { b' with pending := [] } :=
    ⟨h.done, h.opened, fun _ => rfl⟩
  rw [flush_eq, flush_eq]
  exact hnone.addAll (.ofText _ _) fun hb => by rw [h.pending hb]

theorem close : Builder.Reformatted table b.close b'.close := by
  obtain ⟨done, opened, pending⟩ := b
  obtain ⟨done', opened', pending'⟩ := b'
  obtain ⟨hdone, hopened, hpending⟩ := h
  cases hopened with
  | nil => exact ⟨hdone, .nil, hpending⟩
  | @cons tag attributes children children' outer outer' hchildren hinner houter =>
    have hrest : Builder.Reformatted table ⟨done, outer, pending⟩ ⟨done', outer', pending'⟩ :=
      ⟨hdone, houter, fun hb => hpending (bound_cons.2 (.inr hb))⟩
    refine hrest.addAll (.element tag hchildren (hinner ∘ .inl) .nil) fun hb => ?_
    rw [hinner (.inr hb)]

/-- **One token** of both pages. -/
theorem step (t : Token) : Builder.Reformatted table (b.step t) (b'.step t) := by
  have hflush := h.flush
  unfold Builder.step
  split
  · exact ⟨h.done, h.opened, fun hb => congrArg (· ++ t.text) (h.pending hb)⟩
  · exact ⟨h.done, h.opened, fun hb => congrArg (· ++ t.text) (h.pending hb)⟩
  · exact h
  · exact h
  · dsimp only
    split
    · exact ⟨hflush.done, .cons _ .nil (fun _ => rfl) hflush.opened,
        fun _ => (flush_pending b).trans (flush_pending b').symm⟩
    · exact hflush.addAll (.element _ .nil (fun _ => rfl) .nil) fun _ => rfl
  · exact hflush.close

/-- **A filler** of the second page, where no open element binds its content. -/
theorem filler {u : Token} (hu : IsFiller u) (hb : b.Free table) : Builder.Reformatted table b (b'.step u) := by
  cases hu with
  | blank => exact ⟨h.done, h.opened, fun ⟨e, he, hbinds⟩ => absurd hbinds (hb e he)⟩
  | comment => exact h

theorem finish : MarkupLens.Reformatted table b.finish b'.finish :=
  (finish_of_close (R := Builder.Reformatted table) close h.flush).done

end Reformatted

/-- Fillers are put in outside of the elements that bind their content. -/
def Outside (table : DirectiveTable) (b : Builder) (_ : Token) : Prop := b.Free table

instance (b : Builder) (u : Token) : Decidable (Outside table b u) := inferInstanceAs (Decidable (b.Free table))

theorem keeps_reformatted : Keeps (Outside table) (Builder.Reformatted table) :=
  ⟨fun t h => h.step t, fun hu hb h => h.filler hu hb⟩

/-- Only comments are put in, anywhere. -/
def Commented (_ : Builder) (u : Token) : Prop := u.kind = .comment

theorem keeps_eq : Keeps Commented Eq := by
  refine ⟨fun t h => congrArg (Builder.step · t) h, fun hu hb h => ?_⟩
  cases hu with
  | blank => cases hb
  | comment => exact h

end Builder

end Markup

open Markup.Builder (Outside Commented)

/-- **Formatting does not matter outside of elements that bind their content.** Blank text and closed comments can be
put in between any two tokens of a page, and in front of its tail, where no open element binds its content, and what is
extracted stays the same. Closed comments alone can be put in anywhere, and the tree stays the same. All this if, where
the page ends in a comment that is not closed, the first comment that is put in behind it does not start with what
closes that one. -/
theorem extract_formatted (table : DirectiveTable) {page : Text} {us : List Token} (hus : closable us = true) :
    (Filled (Outside table) .empty (tokens page) us →
        Extract.extractWith table (Token.source us ++ tail page) = Extract.extractWith table page) ∧
      (Filled Commented .empty (tokens page) us →
        Markup.parse (Token.source us ++ tail page) = Markup.parse page) := by
  refine ⟨fun h => ?_, fun h => ?_⟩
  · have hstart : Builder.Reformatted table .empty .empty := ⟨.nil, .nil, fun _ => rfl⟩
    have hend := (Builder.keeps_reformatted.run h hus hstart rfl).finish
    exact (hend.gives.1 .empty).symm
  · exact congrArg Builder.finish (Builder.keeps_eq.run h hus rfl rfl).symm

/-- A page with a loop, a stray angle, a surplus close tag and a tail. -/
def densePage : Text := "<ul data-nyanDoneLoop=rows><li data-nyanDoneString=k>a <b>c</b></li></p></ul>< d<a"

/-- The tokens of the page on lines of their own, with comments. -/
def airyTokens : List Token :=
  [⟨.comment, "<!--" ++ ">" ++ "-->"⟩, ⟨.openTag, "<ul data-nyanDoneLoop=rows>"⟩, ⟨.text, "\n  "⟩,
    ⟨.openTag, "<li data-nyanDoneString=k>"⟩, ⟨.text, "a "⟩, ⟨.openTag, "<b>"⟩, ⟨.text, "c"⟩, ⟨.closeTag, "</b>"⟩,
    ⟨.closeTag, "</li>"⟩, ⟨.text, "\n"⟩, ⟨.comment, "<!--" ++ " <li> " ++ "-->"⟩, ⟨.closeTag, "</p>"⟩,
    ⟨.closeTag, "</ul>"⟩, ⟨.strayAngle, "<"⟩, ⟨.text, "\n"⟩, ⟨.text, " d"⟩, ⟨.text, "\n"⟩]

/-- The same page with a comment in the middle of what is bound. -/
def commentedTokens : List Token :=
  [⟨.openTag, "<ul data-nyanDoneLoop=rows>"⟩, ⟨.openTag, "<li data-nyanDoneString=k>"⟩, ⟨.text, "a "⟩,
    ⟨.comment, "<!--" ++ " b " ++ "-->"⟩, ⟨.openTag, "<b>"⟩, ⟨.text, "c"⟩, ⟨.closeTag, "</b>"⟩, ⟨.closeTag, "</li>"⟩,
    ⟨.closeTag, "</p>"⟩, ⟨.closeTag, "</ul>"⟩, ⟨.strayAngle, "<"⟩, ⟨.comment, "<!--" ++ "" ++ "-->"⟩, ⟨.text, " d"⟩]

theorem extract_formatted_densePage :
    (closable airyTokens = true ∧ Filled (Outside .standard) .empty (tokens densePage) airyTokens ∧
        Extract.extractWith .standard (Token.source airyTokens ++ tail densePage) =
          .ofList [("rows", .list [.ofList [("k", .text "a c")]])]) ∧
      closable commentedTokens = true ∧ Filled Commented .empty (tokens densePage) commentedTokens ∧
      Markup.parse (Token.source commentedTokens ++ tail densePage) = Markup.parse densePage := by
  have htokens : tokens densePage =
      [⟨.openTag, "<ul data-nyanDoneLoop=rows>"⟩, ⟨.openTag, "<li data-nyanDoneString=k>"⟩, ⟨.text, "a "⟩,
        ⟨.openTag, "<b>"⟩, ⟨.text, "c"⟩, ⟨.closeTag, "</b>"⟩, ⟨.closeTag, "</li>"⟩, ⟨.closeTag, "</p>"⟩,
        ⟨.closeTag, "</ul>"⟩, ⟨.strayAngle, "<"⟩, ⟨.text, " d"⟩] := by
    decide +kernel
  have hairy : Filled (Outside .standard) .empty (tokens densePage) airyTokens := by
    rw [htokens]
    refine .fill (.comment (by decide)) (by decide +kernel) ?_
    refine .keep ?_
    refine .fill (.blank (by decide)) (by decide +kernel) ?_
    iterate 6 refine .keep ?_
    refine .fill (.blank (by decide)) (by decide +kernel) ?_
    refine .fill (.comment (by decide)) (by decide +kernel) ?_
    iterate 3 refine .keep ?_
    refine .fill (.blank (by decide)) (by decide +kernel) ?_
    refine .keep ?_
    exact .fill (.blank (by decide)) (by decide +kernel) .nil
  have hcommented : Filled Commented .empty (tokens densePage) commentedTokens := by
    rw [htokens]
    iterate 3 refine .keep ?_
    refine .fill (.comment (by decide)) rfl ?_
    iterate 7 refine .keep ?_
    refine .fill (.comment (by decide)) rfl ?_
    exact .keep .nil
  have hus : closable airyTokens = true := by decide +kernel
  have hus' : closable commentedTokens = true := by decide +kernel
  refine ⟨⟨hus, hairy, ?_⟩, hus', hcommented, (extract_formatted .standard hus').2 hcommented⟩
  rw [(extract_formatted .standard hus).1 hairy]
  decide +kernel

/-- A page that is one comment, not closed. -/
def openedPage : Text := "<!-- a"

/-- A closed comment behind it, which starts with what closes the one in front. -/
def abruptTokens : List Token :=
  [⟨.comment, "<!-- a"⟩, ⟨.comment, "<!--" ++ "><p data-nyanDoneString=k>x</p" ++ "-->"⟩]

theorem extract_formatted_abrupt :
    Filled (Outside .standard) .empty (tokens openedPage) abruptTokens ∧
      Filled Commented .empty (tokens openedPage) abruptTokens ∧
      Extract.extractWith .standard (Token.source abruptTokens ++ tail openedPage) ≠
        Extract.extractWith .standard openedPage ∧
      Markup.parse (Token.source abruptTokens ++ tail openedPage) ≠ Markup.parse openedPage := by
  have htokens : tokens openedPage = [⟨.comment, "<!-- a"⟩] := by decide +kernel
  rw [htokens]
  refine ⟨?_, ?_, by decide +kernel, fun h => ?_⟩
  · refine .keep ?_
    exact .fill (.comment (by decide +kernel)) (by decide +kernel) .nil
  · refine .keep ?_
    exact .fill (.comment (by decide +kernel)) rfl .nil
  · exact absurd (congrArg List.length h) (by decide +kernel)

end MarkupLens
