/-
Stray close tags. A close tag that stands where it closes nothing of its own
pops an element that was meant to go on, and what follows comes to stand
elsewhere in the tree; later close tags pop the wrong elements or nothing.
Still every element keeps its attributes and its place in the order of the
page, and without containers a page gives what its elements bind in that
order. Only an element that binds its content looks at what is in it, so where
close tags are put in outside of such elements, nothing is lost
(`extract_strayed`).

The proof runs the tree builder on both pages side by side (`Alike`). Outside
the elements that bind their content the two stacks have nothing in common
but what is told by them, and every close tag leaves that as it is; inside,
the stacks agree up to the outermost of these elements.
-/
import MarkupLens.Proofs.Extract.DocumentOrder
import MarkupLens.Proofs.Markup.Closing

namespace MarkupLens

open Extract (Mark marks ownBindings bindings bindingsAmong container? containerMark? reading)
open Markup (OpenElement Builder attributesOf)

variable {table : DirectiveTable}

/-! ## Bindings that do not depend on the content -/

namespace Extract

variable {attributes : Attributes}

/-- A marker of the attributes binds the content. -/
def BindsContent (table : DirectiveTable) (attributes : Attributes) : Prop :=
  ∃ m ∈ marks table attributes, m.isContent = true

instance (table : DirectiveTable) (attributes : Attributes) : Decidable (BindsContent table attributes) :=
  inferInstanceAs (Decidable (∃ m ∈ marks table attributes, m.isContent = true))

/-- Attributes by name, none of which makes a container. -/
structure Uncontained (table : DirectiveTable) (attributes : Attributes) : Prop where
  sorted : Keyed.Sorted attributes
  container : container? (marks table attributes) = none

theorem reading_congr {m : Mark} (h : m.isAttribute = true ∨ m.isFlag = true) (children children' : List Node) :
    reading m.binding attributes children = reading m.binding attributes children' := by
  obtain ⟨binding, key⟩ := m
  cases binding with
  | content | loop | scope => simp [Mark.isAttribute, Mark.isFlag] at h
  | «attribute» name | boolean name => rfl

theorem ownBindings_congr (hs : Keyed.Sorted attributes) (h : ¬ BindsContent table attributes)
    (children children' : List Node) :
    ownBindings table attributes children = ownBindings table attributes children' := by
  have hcontent : (marks table attributes).filter Mark.isContent = [] :=
    List.filter_eq_nil_iff.2 fun m hm hc => h ⟨m, hm, hc⟩
  rw [ownBindings, ownBindings, markers_eq hs, markers_eq hs, markers_eq hs, hcontent, List.nil_append]
  refine List.map_congr_left fun m hm => ?_
  have hsort : m.isAttribute = true ∨ m.isFlag = true := by
    rcases List.mem_append.1 hm with hm | hm
    · exact .inl (List.mem_filter.1 hm).2
    · exact .inr (List.mem_filter.1 hm).2
  rw [reading_congr hsort children children']

theorem bindings_element (h : Uncontained table attributes) (tag : Text) (children : List Node) :
    bindings table (.element tag attributes children) =
      ownBindings table attributes children ++ bindingsAmong table children := by
  have hnone : containerMark? table attributes = none := by rw [← container?_eq h.sorted, h.container]
  rw [bindings, hnone]

theorem bindingsAmong_append (ns ms : List Node) :
    bindingsAmong table (ns ++ ms) = bindingsAmong table ns ++ bindingsAmong table ms := by
  induction ns with
  | nil => rw [bindingsAmong]; rfl
  | cons n ns ih => rw [List.cons_append, bindingsAmong, bindingsAmong, ih, List.append_assoc]

theorem bindingsAmong_concat (ns : List Node) (n : Node) :
    bindingsAmong table (ns ++ [n]) = bindingsAmong table ns ++ bindings table n := by
  rw [bindingsAmong_append, bindingsAmong, bindingsAmong, List.append_nil]

end Extract

open Extract (BindsContent Uncontained)

/-! ## What a tree under construction tells -/

namespace Markup.Builder

/-- What the open elements bind, in the order of the page. -/
def toldOpen (table : DirectiveTable) : List OpenElement → List (Text × Value)
  | [] => []
  | e :: outer => toldOpen table outer ++ (ownBindings table e.attributes e.children ++ bindingsAmong table e.children)

/-- What is bound in the tree under construction, in the order of the page. -/
def told (table : DirectiveTable) (b : Builder) : List (Text × Value) :=
  bindingsAmong table b.done ++ toldOpen table b.opened

/-- No open element binds its content. -/
def Free (table : DirectiveTable) (b : Builder) : Prop := ∀ e ∈ b.opened, ¬ BindsContent table e.attributes

instance (table : DirectiveTable) (b : Builder) : Decidable (b.Free table) :=
  inferInstanceAs (Decidable (∀ e ∈ b.opened, ¬ BindsContent table e.attributes))

variable {b b' : Builder}

theorem Free.add (h : b.Free table) (n : Node) : (b.add n).Free table := by
  obtain ⟨done, opened, pending⟩ := b
  cases opened with
  | nil => exact h
  | cons e outer => exact List.forall_mem_cons.2 (List.forall_mem_cons.1 h)

theorem told_add (h : b.Free table) (he : b.Every (Uncontained table)) (n : Node) :
    (b.add n).told table = b.told table ++ bindings table n := by
  obtain ⟨done, opened, pending⟩ := b
  cases opened with
  | nil => simp [told, add, toldOpen, Extract.bindingsAmong_concat]
  | cons e outer =>
    have hown := Extract.ownBindings_congr (he.opened e (by simp)).attributes.sorted (h e (by simp))
      (e.children ++ [n]) e.children
    simp [told, add, toldOpen, Extract.bindingsAmong_concat, hown]

theorem Free.flush (h : b.Free table) : b.flush.Free table := by
  unfold Builder.flush
  split
  · exact h
  · exact h.add _

theorem told_flush (h : b.Free table) (he : b.Every (Uncontained table)) : b.flush.told table = b.told table := by
  unfold Builder.flush
  split
  · rfl
  · have hadd := told_add h he (.text b.pending)
    rw [bindings, List.append_nil] at hadd
    exact hadd

theorem Free.close (h : b.Free table) : b.close.Free table := by
  obtain ⟨done, opened, pending⟩ := b
  cases opened with
  | nil => exact h
  | cons e outer =>
    have hrest : Free table ⟨done, outer, pending⟩ := (List.forall_mem_cons.1 h).2
    exact hrest.add e.node

/-- **A close tag takes nothing back.** -/
theorem told_close (h : b.Free table) (he : b.Every (Uncontained table)) : b.close.told table = b.told table := by
  obtain ⟨done, opened, pending⟩ := b
  cases opened with
  | nil => rfl
  | cons e outer =>
    have hrest : Free table ⟨done, outer, pending⟩ := (List.forall_mem_cons.1 h).2
    show (add e.node ⟨done, outer, pending⟩).told table = _
    rw [told_add hrest he.outer, OpenElement.node, Extract.bindings_element (he.opened e (by simp)).attributes]
    simp [told, toldOpen]

/-! ## Two pages side by side -/

/-- The trees under construction tell the same outside the elements that bind their content, and are the same inside. -/
inductive Alike (table : DirectiveTable) : Builder → Builder → Prop where
  | outside {b b' : Builder} (hfree : b.Free table) (hfree' : b'.Free table) (htold : b.told table = b'.told table) :
      Alike table b b'
  | inside {done done' : List Node} (inner : List OpenElement) {outer outer' : List OpenElement} {e : OpenElement}
      {pending : Text} (he : BindsContent table e.attributes) (hfree : Free table ⟨done, outer, pending⟩)
      (hfree' : Free table ⟨done', outer', pending⟩)
      (htold : told table ⟨done, outer, pending⟩ = told table ⟨done', outer', pending⟩) :
      Alike table ⟨done, inner ++ e :: outer, pending⟩ ⟨done', inner ++ e :: outer', pending⟩

/-- The trees of two pages under construction, none of whose elements is a container. -/
structure SideBySide (table : DirectiveTable) (b b' : Builder) : Prop where
  alike : Alike table b b'
  every : b.Every (Uncontained table)
  every' : b'.Every (Uncontained table)

theorem Alike.mapPending (h : Alike table b b') (f : Text → Text) :
    Alike table { b with pending := f b.pending } { b' with pending := f b'.pending } := by
  cases h with
  | outside hfree hfree' htold => exact .outside hfree hfree' htold
  | inside inner he hfree hfree' htold => exact .inside inner he hfree hfree' htold

/-- Where the one page is outside, so is the other. -/
theorem Alike.told_of_free (h : Alike table b b') (hb : b.Free table) : b'.Free table ∧ b.told table = b'.told table := by
  cases h with
  | outside _ hfree' htold => exact ⟨hfree', htold⟩
  | inside _ he => exact absurd he (hb _ (by simp))

namespace SideBySide

variable (h : SideBySide table b b')

include h

theorem add {n : Node} (hn : n.Every (Uncontained table)) : SideBySide table (b.add n) (b'.add n) := by
  refine ⟨?_, h.every.add hn, h.every'.add hn⟩
  obtain ⟨halike, hb, hb'⟩ := h
  cases halike with
  | outside hfree hfree' htold =>
    exact .outside (hfree.add n) (hfree'.add n) (by rw [told_add hfree hb, told_add hfree' hb', htold])
  | @inside done done' inner outer outer' e pending he hfree hfree' htold =>
    cases inner with
    | nil => exact .inside [] he hfree hfree' htold
    | cons i inner => exact .inside ({ i with children := i.children ++ [n] } :: inner) he hfree hfree' htold

theorem flush : SideBySide table b.flush b'.flush := by
  refine ⟨?_, h.every.flush, h.every'.flush⟩
  cases h.alike with
  | outside hfree hfree' htold =>
    exact .outside hfree.flush hfree'.flush (by rw [told_flush hfree h.every, told_flush hfree' h.every', htold])
  | @inside _ _ _ _ _ _ pending =>
    unfold Builder.flush
    dsimp only
    split
    · exact h.alike.mapPending fun _ => []
    · exact (h.add (Node.every_text pending)).alike.mapPending fun _ => []

theorem close : SideBySide table b.close b'.close := by
  refine ⟨?_, h.every.close, h.every'.close⟩
  obtain ⟨halike, hb, hb'⟩ := h
  cases halike with
  | outside hfree hfree' htold =>
    exact .outside hfree.close hfree'.close (by rw [told_close hfree hb, told_close hfree' hb', htold])
  | @inside done done' inner outer outer' e pending he hfree hfree' htold =>
    cases inner with
    | nil =>
      -- the outermost element that binds its content is closed, so what is in it no longer has to agree
      have hrest : SideBySide table ⟨done, outer, pending⟩ ⟨done', outer', pending⟩ :=
        ⟨.outside hfree hfree' htold, hb.outer, hb'.outer⟩
      exact (hrest.add (hb.opened e (by simp)).node).alike
    | cons i inner =>
      have hrest : SideBySide table ⟨done, inner ++ e :: outer, pending⟩ ⟨done', inner ++ e :: outer', pending⟩ :=
        ⟨.inside inner he hfree hfree' htold, hb.outer, hb'.outer⟩
      exact (hrest.add (hb.opened i (by simp)).node).alike

/-- An element is opened; if it binds its content, the pages go inside. -/
theorem opened {e : OpenElement} (he : e.Every (Uncontained table)) (hpending : b.pending = b'.pending) :
    SideBySide table { b with opened := e :: b.opened } { b' with opened := e :: b'.opened } := by
  refine ⟨?_, ⟨h.every.done, List.forall_mem_cons.2 ⟨he, h.every.opened⟩⟩,
    ⟨h.every'.done, List.forall_mem_cons.2 ⟨he, h.every'.opened⟩⟩⟩
  cases h.alike with
  | outside hfree hfree' htold =>
    obtain ⟨done, opened, pending⟩ := b
    obtain ⟨done', opened', pending'⟩ := b'
    obtain rfl : pending = pending' := hpending
    by_cases hbinds : BindsContent table e.attributes
    · exact .inside [] hbinds hfree hfree' htold
    · refine .outside (List.forall_mem_cons.2 ⟨hbinds, hfree⟩) (List.forall_mem_cons.2 ⟨hbinds, hfree'⟩) ?_
      simp only [told, toldOpen, ← List.append_assoc] at htold ⊢
      rw [htold]
  | @inside done done' inner outer outer' e' pending he' hfree hfree' htold =>
    exact .inside (e :: inner) he' hfree hfree' htold

/-- **One token** that stands on both pages keeps them alike. -/
theorem step {t : Token} (ht : t.kind = .openTag → Uncontained table (attributesOf (OpenTag.scan t.text))) :
    SideBySide table (b.step t) (b'.step t) := by
  refine ⟨?_, h.every.step ht, h.every'.step ht⟩
  unfold Builder.step
  split
  · exact h.alike.mapPending (· ++ t.text)
  · exact h.alike.mapPending (· ++ t.text)
  · exact h.alike
  · exact h.alike
  · rename_i hk
    dsimp only
    split
    · have hpending : b.flush.pending = b'.flush.pending := (flush_pending b).trans (flush_pending b').symm
      exact (h.flush.opened ⟨ht hk, Node.everyAmong_nil⟩ hpending).alike
    · refine (h.flush.add ?_).alike
      rw [Node.Every]
      exact ⟨ht hk, Node.everyAmong_nil⟩
  · exact h.flush.close.alike

/-- **A stray close tag** on the second page keeps them alike outside the elements that bind their content. -/
theorem stray (hb : b.Free table) {t : Token} (ht : t.kind = .closeTag) : SideBySide table b (b'.step t) := by
  have hstep : b'.step t = b'.flush.close := by simp [Builder.step, ht]
  rw [hstep]
  refine ⟨?_, h.every, h.every'.flush.close⟩
  obtain ⟨hfree', htold⟩ := h.alike.told_of_free hb
  refine .outside hb hfree'.flush.close ?_
  rw [told_close hfree'.flush h.every'.flush, told_flush hfree' h.every', htold]

/-- **At the end** of the pages the trees tell the same. -/
theorem finish : bindingsAmong table b.finish = bindingsAmong table b'.finish := by
  have hclosed := (finish_of_close (R := SideBySide table) close h.flush).alike
  have hfree : Free table ⟨b.finish, [], []⟩ := fun e he => absurd he (by simp)
  simpa [told, toldOpen] using (hclosed.told_of_free hfree).2

end SideBySide

end Markup.Builder

/-! ## Close tags among tokens -/

namespace Markup

/-- Close tags have been put in among the tokens of a page, read from a state, where no open element of the page binds
its content. -/
inductive Strayed (table : DirectiveTable) : Builder → List Token → List Token → Prop where
  | nil {b : Builder} : Strayed table b [] []
  | keep {b : Builder} {t : Token} {ts us : List Token} (h : Strayed table (b.step t) ts us) :
      Strayed table b (t :: ts) (t :: us)
  | stray {b : Builder} {u : Text} {ts us : List Token} (hu : '>' ∉ u) (hb : b.Free table) (h : Strayed table b ts us) :
      Strayed table b ts (⟨.closeTag, "</" ++ u ++ ">"⟩ :: us)

/-- In front of the first token comes to stand a close tag or nothing. -/
theorem run_strayed {b : Builder} {ts us : List Token} (h : Strayed table b ts us) {s : Text} (hs : tokens s = ts) :
    run (Token.source us ++ tail s) = run s ∨ run (Token.source us ++ tail s) = [] := by
  induction h generalizing s with
  | nil =>
    rw [Token.source_nil, List.nil_append, tail_of_tokens_nil hs]
    exact .inl rfl
  | keep h ih =>
    obtain ⟨r, hnext, hr⟩ := exists_next?_of_tokens_eq_cons hs
    rw [tail_of_next? hnext, Token.source_cons, List.append_assoc]
    exact takeWhile_of_next? rfl hnext (ih hr)
  | stray => exact .inr (run_angle _)

/-- Behind the last token there are only stray ones. -/
theorem Strayed.stray_of_nil {b : Builder} {ts us : List Token} (h : Strayed table b ts us) (hts : ts = []) :
    Stray us ∧ (us ≠ [] → b.Free table) := by
  induction h with
  | nil => exact ⟨by simp [Stray], fun h => absurd rfl h⟩
  | keep => cases hts
  | stray hu hb _ ih => exact ⟨List.forall_mem_cons.2 ⟨⟨_, hu, rfl⟩, (ih hts).1⟩, fun _ => hb⟩

/-- The ending of a comment that is first there with a last `>` stands at the end. -/
theorem exists_eq_append_ending {v w : Text} (hv : ¬ "-->".toList <:+: v) (hw : '>' ∉ w)
    (h : "-->".toList <:+: v ++ w ++ ">") : ∃ x, v ++ w ++ ">" = x ++ "-->" ∧ ¬ "-->".toList <:+: x := by
  rcases commentBody_cases (v ++ w ++ ">") with ⟨x, hx, hno⟩ | ⟨-, hno⟩
  · refine ⟨x, ?_, hno⟩
    have hprefix : x ++ "-->".toList <+: v ++ w ++ ['>'] := ⟨_, hx ▸ commentBody_append _⟩
    refine (List.prefix_concat_iff.1 hprefix).elim Eq.symm fun ⟨z, hz⟩ => ?_
    -- an ending in front of the last `>` would end in `v`
    rcases List.append_eq_append_iff.1 hz with ⟨y, hy, -⟩ | ⟨y, hy, hyz⟩
    · exact absurd ⟨x, y, hy.symm⟩ hv
    · rcases List.eq_nil_or_concat y with rfl | ⟨y, c, rfl⟩
      · exact absurd ⟨x, [], by rw [List.append_nil, hy, List.append_nil]⟩ hv
      · have hlast := congrArg List.getLast? hy
        obtain rfl : '>' = c := by simpa using hlast
        exact absurd (by simp [hyz]) hw
  · exact absurd h hno

/-- **A comment that was not closed** takes up the close tags behind it, up to one that ends like a comment. -/
theorem tokens_openComment {v : Text} (hv : ¬ "-->".toList <:+: v) {us : List Token} (h : Stray us) :
    ∃ w us', us' <:+ us ∧ tokens ("<!--" ++ v ++ Token.source us) = ⟨.comment, w⟩ :: us' := by
  induction us generalizing v with
  | nil =>
    have htokens : tokens ("<!--" ++ v ++ Token.source []) = [⟨.comment, "<!--" ++ v⟩] := by
      rw [Token.source_nil, tokens_of_next? (next?_of_isToken (.openComment hv)), tokens_of_next?_none rfl]
    exact ⟨_, [], List.suffix_refl [], htokens⟩
  | cons t us ih =>
    obtain ⟨⟨u, hu, rfl⟩, hus⟩ := List.forall_mem_cons.1 h
    have hw : '>' ∉ "</" ++ u := by simpa using hu
    have hsource : "<!--" ++ v ++ Token.source (⟨.closeTag, "</" ++ u ++ ">"⟩ :: us) =
        "<!--" ++ (v ++ ("</" ++ u) ++ ">") ++ Token.source us := by
      simp only [Token.source_cons, List.append_assoc]
    rw [hsource]
    by_cases hend : "-->".toList <:+: v ++ ("</" ++ u) ++ ">"
    · obtain ⟨x, hx, hno⟩ := exists_eq_append_ending hv hw hend
      rw [hx, ← List.append_assoc, tokens_of_next? (next?_of_isToken (.comment hno)), tokens_stray hus]
      exact ⟨_, us, List.suffix_cons _ us, rfl⟩
    · obtain ⟨w, us', hsuffix, htokens⟩ := ih hend hus
      exact ⟨w, us', hsuffix.trans (List.suffix_cons _ us), htokens⟩

namespace Builder.SideBySide

variable {b b' : Builder}

theorem foldl_stray (h : SideBySide table b b') {us : List Token} (hus : Stray us) (hb : us ≠ [] → b.Free table) :
    SideBySide table b (us.foldl Builder.step b') := by
  induction us generalizing b' with
  | nil => exact h
  | cons t us ih =>
    obtain ⟨⟨u, -, rfl⟩, hrest⟩ := List.forall_mem_cons.1 hus
    have hfree := hb (List.cons_ne_nil _ us)
    exact ih (h.stray hfree rfl) hrest fun _ => hfree

/-- **The whole of the two pages** keeps them alike. -/
theorem run (h : SideBySide table b b') {ts us : List Token} (hs : Strayed table b ts us)
    (hts : ∀ t ∈ ts, t.kind = .openTag → Uncontained table (attributesOf (OpenTag.scan t.text))) {s : Text}
    (htokens : tokens s = ts) :
    SideBySide table (ts.foldl Builder.step b) ((tokens (Token.source us ++ tail s)).foldl Builder.step b') := by
  induction hs generalizing b' s with
  | nil =>
    rw [Token.source_nil, List.nil_append, tail_of_tokens_nil htokens, htokens]
    exact h
  | @stray b u ts us hu hb hs ih =>
    rw [Token.source_cons, List.append_assoc, tokens_of_next? (next?_of_isToken (.closeTag hu)), List.foldl_cons]
    exact ih (h.stray hb rfl) hts htokens
  | @keep b t ts us hs ih =>
    obtain ⟨r, hnext, hr⟩ := exists_next?_of_tokens_eq_cons htokens
    obtain ⟨rfl, htoken⟩ := next?_eq_some_iff.1 hnext
    rw [List.forall_mem_cons] at hts
    have hstep := h.step hts.1
    rw [tail_of_next? hnext, Token.source_cons, List.append_assoc, List.foldl_cons]
    rcases htoken.of_run (run_strayed hs hr) with hkeep | ⟨hkind, rfl, v, hv, hno⟩
    · rw [tokens_of_next? (next?_of_isToken hkeep), List.foldl_cons]
      exact ih hstep hts.2 hr
    · -- nothing stands behind the comment but stray close tags, and it takes some of them up
      obtain rfl : ts = [] := by rw [← hr, tokens_of_next?_none rfl]
      obtain ⟨hus, hfree⟩ := hs.stray_of_nil rfl
      obtain ⟨w, us', hsuffix, hopen⟩ := tokens_openComment hno hus
      obtain ⟨kind, text⟩ := t
      obtain rfl : kind = .comment := hkind
      obtain rfl : text = "<!--" ++ v := hv
      rw [tail_of_next?_none (s := []) rfl, List.append_nil, hopen, List.foldl_cons]
      refine foldl_stray hstep (fun t ht => hus t (hsuffix.subset ht)) fun hne => hfree ?_
      rintro rfl
      exact hne (List.suffix_nil.1 hsuffix)

end Builder.SideBySide

end Markup

open Markup (tokens tail Strayed)

/-- **Stray close tags lose no binding.** Where no element of a page is a container, close tags of any names can be put
in at any places between tokens that are not inside an element that binds its content, and what is extracted stays the
same. -/
theorem extract_strayed {page : Text} {us : List Token}
    (hc : ∀ t ∈ tokens page, t.kind = .openTag → container? (marks table (attributesOf (OpenTag.scan t.text))) = none)
    (h : Strayed table .empty (tokens page) us) :
    Extract.extractWith table (Token.source us ++ tail page) = Extract.extractWith table page := by
  have hstart : Builder.SideBySide table .empty .empty :=
    ⟨.outside (by simp [Builder.Free, Builder.empty]) (by simp [Builder.Free, Builder.empty]) rfl,
      Builder.every_empty, Builder.every_empty⟩
  have hall := hstart.run h (fun t ht hk => ⟨Markup.sorted_attributesOf _, hc t ht hk⟩) rfl
  have htold := hall.finish
  rw [Extract.extractWith, Extract.extractWith, Extract.mergeInto_eq _ (Extract.sorted_parse _) Context.canonical_empty,
    Extract.mergeInto_eq _ (Extract.sorted_parse _) Context.canonical_empty]
  exact congrArg Context.empty.insertAll htold.symm

/-- A page that binds a class, and contents inside and beside the element of the class. -/
def classedPage : Text :=
  "<div class=dark data-nyanDoneClass=t><p data-nyanDoneString=a>x<b>y</b></p><hr></div><i data-nyanDoneString=b>z</i>"

/-- Close tags put in among the tokens of the page: in front, in the element of the class, and behind. -/
def strayedTokens : List Token :=
  [⟨.closeTag, "</" ++ "div" ++ ">"⟩, ⟨.openTag, "<div class=dark data-nyanDoneClass=t>"⟩,
    ⟨.closeTag, "</" ++ "section" ++ ">"⟩, ⟨.openTag, "<p data-nyanDoneString=a>"⟩, ⟨.text, "x"⟩, ⟨.openTag, "<b>"⟩,
    ⟨.text, "y"⟩, ⟨.closeTag, "</b>"⟩, ⟨.closeTag, "</p>"⟩, ⟨.openTag, "<hr>"⟩, ⟨.closeTag, "</div>"⟩,
    ⟨.openTag, "<i data-nyanDoneString=b>"⟩, ⟨.text, "z"⟩, ⟨.closeTag, "</i>"⟩, ⟨.closeTag, "</" ++ "p" ++ ">"⟩]

theorem extract_strayed_classedPage :
    (∀ t ∈ tokens classedPage, t.kind = .openTag →
        container? (marks .standard (attributesOf (OpenTag.scan t.text))) = none) ∧
      Strayed .standard .empty (tokens classedPage) strayedTokens ∧
      Extract.extractWith .standard (Token.source strayedTokens ++ tail classedPage) =
        Context.ofList [("a", .text "xy"), ("b", .text "z"), ("t", .text "dark")] := by
  have htokens : tokens classedPage =
      [⟨.openTag, "<div class=dark data-nyanDoneClass=t>"⟩, ⟨.openTag, "<p data-nyanDoneString=a>"⟩, ⟨.text, "x"⟩,
        ⟨.openTag, "<b>"⟩, ⟨.text, "y"⟩, ⟨.closeTag, "</b>"⟩, ⟨.closeTag, "</p>"⟩, ⟨.openTag, "<hr>"⟩,
        ⟨.closeTag, "</div>"⟩, ⟨.openTag, "<i data-nyanDoneString=b>"⟩, ⟨.text, "z"⟩, ⟨.closeTag, "</i>"⟩] := by
    decide +kernel
  have hc : ∀ t ∈ tokens classedPage, t.kind = .openTag →
      container? (marks .standard (attributesOf (OpenTag.scan t.text))) = none := by
    rw [htokens]
    decide +kernel
  have hstrayed : Strayed .standard .empty (tokens classedPage) strayedTokens := by
    rw [htokens]
    refine .stray (by decide) (by decide +kernel) (.keep (.stray (by decide) (by decide +kernel) ?_))
    iterate 10 refine .keep ?_
    exact .keep (.stray (by decide) (by decide +kernel) .nil)
  refine ⟨hc, hstrayed, ?_⟩
  rw [extract_strayed hc hstrayed]
  decide +kernel

end MarkupLens
