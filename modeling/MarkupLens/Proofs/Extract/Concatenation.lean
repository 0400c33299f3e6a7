/-
Pages put one behind the other. Where no element is open, the builder of the
tree starts anew: what it makes of the tokens behind that place is what it
makes of them alone, next to what is complete already (`Behind`). Only a run
of text can come out otherwise, as it may go on over the cut, and text at the
top of a page binds nothing. So the elements at the top of the page are those
of its two parts (`among_parse`), and what is extracted from it is what its
first part gives with what its second part gives merged into it
(`extract_concatenated`).
-/
import MarkupLens.Proofs.Extract.StrayClose

namespace MarkupLens

open Extract (ofNode mergeInto extractWith)
open Markup (Builder tokens)

variable {table : DirectiveTable} {front : List Element}

namespace Element

/-- The element as a node. -/
def node (e : Element) : Node := .element e.tag e.attributes e.children

@[simp] theorem among_text (s : Text) : among [.text s] = [] := by rw [among, among]

theorem among_append (ns ms : List Node) : among (ns ++ ms) = among ns ++ among ms := by
  induction ns with
  | nil => rw [among]; rfl
  | cons n ns ih =>
    cases n with
    | text s => rw [List.cons_append, among, among, ih]
    | element tag attributes children => rw [List.cons_append, among, among, ih, List.cons_append]

end Element

namespace Extract

/-- **What some nodes give** is what their elements give, merged from the left. -/
theorem mergeInto_eq_foldl (r : Context) (ns : List Node) :
    mergeInto table r ns = (Element.among ns).foldl (fun r e => r.merge (ofNode table e.node)) r := by
  induction ns generalizing r with
  | nil => rw [mergeInto, Element.among]; rfl
  | cons n ns ih =>
    cases n with
    | text s => rw [mergeInto_text, ih, Element.among]
    | element tag attributes children =>
      rw [mergeInto, ih, Element.among]
      rfl

/-- Merging elements into a record is merging what they give by themselves. -/
theorem mergeInto_eq_merge {r : Context} (h : r.Canonical) (ns : List Node) :
    mergeInto table r ns = r.merge (mergeInto table .empty ns) := by
  induction ns generalizing r with
  | nil => rw [mergeInto, mergeInto, Context.merge_empty]
  | cons n ns ih =>
    have hn : (ofNode table n).Canonical := canonical_ofNode n
    have hns : (mergeInto table .empty ns).Canonical := canonical_mergeInto Context.canonical_empty ns
    rw [mergeInto, mergeInto, Context.empty_merge hn, ih (h.merge _), ih hn]
    exact h.merge_assoc hn hns

end Extract

/-! ## A tree built behind a finished one -/

namespace Markup.Builder

/-- The one tree under construction is the other one with some elements in front of what is complete. Runs of text at
the top may be others, and so may the pending text be where it is to stand there. -/
structure Behind (front : List Element) (b b' : Builder) : Prop where
  opened : b.opened = b'.opened
  pending : b.opened ≠ [] → b.pending = b'.pending
  done : Element.among b.done = front ++ Element.among b'.done

namespace Behind

variable {b b' : Builder} (h : Behind front b b')

include h

theorem flush : Behind front b.flush b'.flush := by
  obtain ⟨done, opened, pending⟩ := b
  obtain ⟨done', opened', pending'⟩ := b'
  obtain ⟨hopened, hpending, hdone⟩ := h
  obtain rfl : opened = opened' := hopened
  have hnone : (flush ⟨done, opened, pending⟩).pending = (flush ⟨done', opened, pending'⟩).pending :=
    (flush_pending _).trans (flush_pending _).symm
  cases opened with
  | nil =>
    have htop : ∀ (done : List Node) (pending : Text),
        Element.among (flush ⟨done, [], pending⟩).done = Element.among done := by
      intro done pending
      unfold Builder.flush
      split
      · rfl
      · show Element.among (done ++ [.text pending]) = _
        rw [Element.among_append, Element.among_text, List.append_nil]
    refine ⟨?_, fun _ => hnone, ?_⟩
    · rw [flush_eq, flush_eq, addAll_done, addAll_done]
    · rw [htop, htop]
      exact hdone
  | cons e outer =>
    obtain rfl : pending = pending' := hpending (List.cons_ne_nil e outer)
    refine ⟨?_, fun _ => hnone, ?_⟩
    · rw [flush_eq, flush_eq, addAll_opened, addAll_opened]
    · rw [flush_eq, flush_eq, addAll_opened, addAll_opened]
      exact hdone

theorem add (n : Node) : Behind front (b.add n) (b'.add n) := by
  obtain ⟨done, opened, pending⟩ := b
  obtain ⟨done', opened', pending'⟩ := b'
  obtain ⟨hopened, hpending, hdone⟩ := h
  obtain rfl : opened = opened' := hopened
  cases opened with
  | nil =>
    refine ⟨rfl, hpending, ?_⟩
    show Element.among (done ++ [n]) = front ++ Element.among (done' ++ [n])
    rw [Element.among_append, Element.among_append, ← List.append_assoc]
    exact congrArg (· ++ _) hdone
  | cons e outer => exact ⟨rfl, fun _ => hpending (List.cons_ne_nil e outer), hdone⟩

theorem close : Behind front b.close b'.close := by
  obtain ⟨done, opened, pending⟩ := b
  obtain ⟨done', opened', pending'⟩ := b'
  obtain ⟨hopened, hpending, hdone⟩ := h
  obtain rfl : opened = opened' := hopened
  cases opened with
  | nil => exact ⟨rfl, hpending, hdone⟩
  | cons e outer =>
    have hrest : Behind front ⟨done, outer, pending⟩ ⟨done', outer, pending'⟩ :=
      ⟨rfl, fun _ => hpending (List.cons_ne_nil e outer), hdone⟩
    exact hrest.add e.node

/-- **One token** keeps the one tree behind what stands in front. -/
theorem step (t : Token) : Behind front (b.step t) (b'.step t) := by
  have hflush := h.flush
  unfold Builder.step
  split
  · exact ⟨h.opened, fun hne => congrArg (· ++ t.text) (h.pending hne), h.done⟩
  · exact ⟨h.opened, fun hne => congrArg (· ++ t.text) (h.pending hne), h.done⟩
  · exact h
  · exact h
  · dsimp only
    split
    · have hpending : b.flush.pending = b'.flush.pending := (flush_pending b).trans (flush_pending b').symm
      exact ⟨congrArg (List.cons _) hflush.opened, fun _ => hpending, hflush.done⟩
    · exact hflush.add _
  · exact hflush.close

/-- **A run of tokens** keeps it there. -/
theorem foldl (ts : List Token) : Behind front (ts.foldl Builder.step b) (ts.foldl Builder.step b') := by
  induction ts generalizing b b' with
  | nil => exact h
  | cons t ts ih => exact ih (h.step t)

theorem finish : Element.among b.finish = front ++ Element.among b'.finish :=
  (finish_of_close (R := Behind front) close h.flush).done

end Behind

end Markup.Builder

/-! ## The two parts of a page -/

namespace Markup

variable {page back : Text} {ts us : List Token}

/-- **The elements at the top of a page** that is cut where none is open are those of its two parts. -/
theorem among_parse (hcut : tokens page = ts ++ us) (hpage : page = Token.source ts ++ back)
    (hclosed : (ts.foldl Builder.step .empty).opened = []) :
    Element.among (parse page) = Element.among (parse (Token.source ts)) ++ Element.among (parse back) := by
  obtain ⟨hfront, hback⟩ := tokens_parts hcut hpage
  rw [parse, parse, parse, treeOf, treeOf, treeOf, hcut, hfront, hback, List.foldl_append]
  generalize ts.foldl Builder.step .empty = b at hclosed
  have hhere : Builder.Behind (Element.among b.done) b .empty :=
    ⟨hclosed, fun hne => absurd hclosed hne, by rw [Builder.empty, Element.among, List.append_nil]⟩
  have hdone : Element.among b.finish = Element.among b.done := by
    rw [hhere.finish]
    exact List.append_nil _
  rw [(hhere.foldl us).finish, hdone]

end Markup

/-- **Extraction turns concatenation into merging.** Whatever the page looks like otherwise: it is cut between two of
its tokens, so that the builder of its tree, once it has read those in front of the cut, has no element open. -/
theorem extract_concatenated {page back : Text} {ts us : List Token} (hcut : tokens page = ts ++ us)
    (hpage : page = Token.source ts ++ back) (hclosed : (ts.foldl Builder.step .empty).opened = []) :
    extractWith table page = (extractWith table (Token.source ts)).merge (extractWith table back) := by
  have hcanonical : (extractWith table (Token.source ts)).Canonical :=
    Extract.canonical_mergeInto Context.canonical_empty _
  calc extractWith table page
      = (Element.among (Markup.parse back)).foldl (fun r e => r.merge (ofNode table e.node))
          (extractWith table (Token.source ts)) := by
        rw [extractWith, extractWith, Extract.mergeInto_eq_foldl, Extract.mergeInto_eq_foldl,
          Markup.among_parse hcut hpage hclosed, List.foldl_append]
    _ = mergeInto table (extractWith table (Token.source ts)) (Markup.parse back) :=
        (Extract.mergeInto_eq_foldl _ _).symm
    _ = (extractWith table (Token.source ts)).merge (extractWith table back) :=
        Extract.mergeInto_eq_merge hcanonical _

/-- The front of a page that closes what is not open, with text at its end that goes on behind the cut. -/
def looseFront : Text :=
  "a</b><p data-nyanDoneString=k>1</p><ul data-nyanDoneLoop=rows><li data-nyanDoneString=k>x</ul><br></i>z "

/-- The rest of it, which binds a key of the front again and leaves elements and a tag open. -/
def looseBack : Text := "< y<p data-nyanDoneString=k>2</p><div data-nyanDoneHtml=owner><b data-nyanDoneString=k>n<a"

theorem extract_concatenated_looseFront :
    (tokens (looseFront ++ looseBack) = tokens looseFront ++ tokens looseBack ∧
        looseFront ++ looseBack = Token.source (tokens looseFront) ++ looseBack ∧
        ((tokens looseFront).foldl Builder.step .empty).opened = []) ∧
      extractWith .standard (looseFront ++ looseBack) =
        (extractWith .standard looseFront).merge (extractWith .standard looseBack) ∧
      extractWith .standard looseFront =
        .ofList [("k", .text "1"), ("rows", .list [.ofList [("k", .text "x")], .empty])] ∧
      extractWith .standard looseBack =
        .ofList [("k", .text "2"), ("owner", .record (.ofList [("k", .text "n")]))] := by
  have hcut : tokens (looseFront ++ looseBack) = tokens looseFront ++ tokens looseBack := by decide +kernel
  have hfront : Token.source (tokens looseFront) = looseFront := by decide +kernel
  have hpage : looseFront ++ looseBack = Token.source (tokens looseFront) ++ looseBack := by rw [hfront]
  have hclosed : ((tokens looseFront).foldl Builder.step .empty).opened = [] := by decide +kernel
  have h : extractWith .standard (looseFront ++ looseBack) =
      (extractWith .standard (Token.source (tokens looseFront))).merge (extractWith .standard looseBack) :=
    extract_concatenated hcut hpage hclosed
  rw [hfront] at h
  exact ⟨⟨hcut, hpage, hclosed⟩, h, by decide +kernel, by decide +kernel⟩

end MarkupLens
