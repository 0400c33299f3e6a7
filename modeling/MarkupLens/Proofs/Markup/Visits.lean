/-
What a walk over the tree of a page meets. The elements come in the order of
their open tags (`made_parse`), and between the tags of the page the walk meets
the text that is shown there, in one piece and nowhere else, in the element
that is open at that place. What it meets is read off the tokens alone
(`Reads`), with nothing left out, met twice or out of order; and as a tree is
determined by what a walk over it meets (`Node.walk_inj`), no other tree than
that of the page is read like this (`parse_visits`).

The proof walks over the tree under construction: what is complete, and then
the open elements from outside in. A tag only ever adds to the end of this
walk, and closing an element leaves it as it is.
-/
import MarkupLens.Proofs.Markup.Elements
import MarkupLens.Proofs.Markup.ForestTree
import MarkupLens.Proofs.Markup.Pairing

namespace MarkupLens

open Text (allBlank)
open Markup (Head headOf OpenElement Builder tokens parse)

/-! ## The walk over a tree -/

/-- What a walk meets: an element, without what is in it, or a text. -/
inductive Met where
  | element (head : Head)
  | text (text : Text)
  deriving DecidableEq

/-- A step of a walk: what is met, and the elements that it is in, the innermost first. -/
structure WalkStep where
  within : List Head
  met : Met
  deriving DecidableEq

/-- The steps of a walk over the nodes, and over all below them, in the order of the page. -/
def Node.walk (within : List Head) : List Node → List WalkStep
  | [] => []
  | .text s :: ns => ⟨within, .text s⟩ :: walk within ns
  | .element tag attributes children :: ns =>
    ⟨within, .element ⟨tag, attributes⟩⟩ :: walk (⟨tag, attributes⟩ :: within) children ++ walk within ns

namespace Node

variable {within : List Head} {ns ms : List Node}

@[simp] theorem walk_nil : walk within [] = [] := by rw [walk]

@[simp] theorem walk_text (s : Text) : walk within [.text s] = [⟨within, .text s⟩] := by rw [walk, walk_nil]

@[simp] theorem walk_element (tag : Text) (attributes : Attributes) (children : List Node) :
    walk within [.element tag attributes children] =
      ⟨within, .element ⟨tag, attributes⟩⟩ :: walk (⟨tag, attributes⟩ :: within) children := by
  rw [walk, walk_nil, List.append_nil]

theorem walk_node (e : OpenElement) :
    walk within [e.node] = ⟨within, .element e.head⟩ :: walk (e.head :: within) e.children :=
  walk_element e.tag e.attributes e.children

theorem walk_append : walk within (ns ++ ms) = walk within ns ++ walk within ms := by
  induction ns with
  | nil => rw [walk_nil, List.nil_append, List.nil_append]
  | cons n ns ih =>
    cases n with
    | text s => rw [List.cons_append, walk, walk, ih, List.cons_append]
    | element tag attributes children => rw [List.cons_append, walk, walk, ih, ← List.append_assoc, List.cons_append]

theorem suffix_of_mem_walk {v : WalkStep} (h : v ∈ walk within ns) : within <:+ v.within := by
  fun_induction walk within ns with
  | case1 => cases h
  | case2 within s ns ih =>
    rcases List.mem_cons.1 h with rfl | h
    · exact List.suffix_rfl
    · exact ih h
  | case3 within tag attributes children ns ihc ih =>
    rw [List.mem_append, List.mem_cons] at h
    rcases h with (rfl | h) | h
    · exact List.suffix_rfl
    · exact (List.suffix_cons _ _).trans (ihc h)
    · exact ih h

theorem within_of_head?_walk {v : WalkStep} (h : v ∈ (walk within ns).head?) : v.within = within := by
  cases ns with
  | nil =>
    rw [walk_nil] at h
    cases h
  | cons n ns =>
    cases n <;>
    · rw [walk] at h
      obtain rfl : _ = v := Option.some.inj h
      rfl

/-- What is met in an element is told from what is met behind it by the number of elements around it. -/
theorem walk_split {head : Head} {ns' ms' : List Node}
    (h : walk (head :: within) ns ++ walk within ms = walk (head :: within) ns' ++ walk within ms') :
    walk (head :: within) ns = walk (head :: within) ns' ∧ walk within ms = walk within ms' := by
  have hinner : ∀ ks, ∀ v ∈ walk (head :: within) ks, decide (within.length < v.within.length) = true := by
    intro ks v hv
    have hlen := (suffix_of_mem_walk hv).length_le
    rw [List.length_cons] at hlen
    exact decide_eq_true (by omega)
  have hbehind : ∀ ks, ∀ v ∈ (walk within ks).head?, decide (within.length < v.within.length) = false := by
    intro ks v hv
    rw [within_of_head?_walk hv]
    exact decide_eq_false (Nat.lt_irrefl _)
  constructor
  · rw [← Text.takeWhile_span (hinner ns) (hbehind ms), h, Text.takeWhile_span (hinner ns') (hbehind ms')]
  · rw [← Text.dropWhile_span (hinner ns) (hbehind ms), h, Text.dropWhile_span (hinner ns') (hbehind ms')]

/-- **A tree is determined by what a walk over it meets.** -/
theorem walk_inj (h : walk within ns = walk within ms) : ns = ms := by
  fun_induction walk within ns generalizing ms with
  | case1 =>
    cases ms with
    | nil => rfl
    | cons m ms => cases m <;> simp [walk] at h
  | case2 within s ns ih =>
    cases ms with
    | nil => simp at h
    | cons m ms =>
      cases m with
      | text s' =>
        rw [walk, List.cons.injEq, WalkStep.mk.injEq, Met.text.injEq] at h
        obtain ⟨⟨-, rfl⟩, hrest⟩ := h
        rw [ih hrest]
      | element => simp [walk] at h
  | case3 within tag attributes children ns ihc ih =>
    cases ms with
    | nil => simp at h
    | cons m ms =>
      cases m with
      | text => simp [walk] at h
      | element tag' attributes' children' =>
        rw [walk, List.cons_append, List.cons_append, List.cons.injEq, WalkStep.mk.injEq, Met.element.injEq,
          Head.mk.injEq] at h
        obtain ⟨⟨-, rfl, rfl⟩, hrest⟩ := h
        obtain ⟨hchildren, hbehind⟩ := walk_split hrest
        rw [ihc hchildren, ih hbehind]

end Node

namespace Markup

/-! ## What is read off the tokens -/

/-- The token is the tag of an element. -/
def isTag (t : Token) : Bool := t.kind == .openTag || t.kind == .closeTag

/-- What some tokens show: their text and stray angles, with comments and declarations passed over. -/
def shown (run : List Token) : Text := Token.source (run.filter fun t => t.kind == .text || t.kind == .strayAngle)

/-- The visit of a text, unless it is blank. -/
def textIn (within : List Head) (s : Text) : List WalkStep := if allBlank s then [] else [⟨within, .text s⟩]

/-- The steps that tokens stand for, read inside of some elements. A run of tokens that are no tags stands for the text
that it shows. An open tag stands for its element, and what follows is read inside of that if the tag opens a body; a
close tag takes the reading out of the innermost element, if there is one. -/
inductive Reads : List Head → List Token → List WalkStep → Prop where
  | ending {within : List Head} {run : List Token} (hrun : ∀ t ∈ run, isTag t = false) :
    Reads within run (textIn within (shown run))
  | opening {within : List Head} {run rest : List Token} {t : Token} {steps : List WalkStep}
    (hrun : ∀ t ∈ run, isTag t = false) (hopen : t.kind = .openTag)
    (hrest : Reads (if (OpenTag.scan t.text).hasBody then headOf t :: within else within) rest steps) :
    Reads within (run ++ t :: rest) (textIn within (shown run) ++ ⟨within, .element (headOf t)⟩ :: steps)
  | closing {within : List Head} {run rest : List Token} {t : Token} {steps : List WalkStep}
    (hrun : ∀ t ∈ run, isTag t = false) (hclose : t.kind = .closeTag) (hrest : Reads within.tail rest steps) :
    Reads within (run ++ t :: rest) (textIn within (shown run) ++ steps)

/-- A token that is no tag lengthens the run in front. -/
theorem Reads.cons {within : List Head} {ts : List Token} {steps : List WalkStep} (h : Reads within ts steps)
    {t : Token} (ht : isTag t = false) : ∃ steps, Reads within (t :: ts) steps := by
  cases h with
  | ending hrun => exact ⟨_, .ending (List.forall_mem_cons.2 ⟨ht, hrun⟩)⟩
  | opening hrun hopen hrest => exact ⟨_, .opening (List.forall_mem_cons.2 ⟨ht, hrun⟩) hopen hrest⟩
  | closing hrun hclose hrest => exact ⟨_, .closing (List.forall_mem_cons.2 ⟨ht, hrun⟩) hclose hrest⟩

/-- All tokens can be read. -/
theorem exists_reads (within : List Head) (ts : List Token) : ∃ steps, Reads within ts steps := by
  induction ts generalizing within with
  | nil => exact ⟨_, .ending (by simp)⟩
  | cons t ts ih =>
    have hnone : ∀ t ∈ ([] : List Token), isTag t = false := by simp
    by_cases hopen : t.kind = .openTag
    · obtain ⟨steps, h⟩ := ih (if (OpenTag.scan t.text).hasBody then headOf t :: within else within)
      exact ⟨_, .opening hnone hopen h⟩
    · by_cases hclose : t.kind = .closeTag
      · obtain ⟨steps, h⟩ := ih within.tail
        exact ⟨_, .closing hnone hclose h⟩
      · obtain ⟨steps, h⟩ := ih within
        exact h.cons (by simp [isTag, hopen, hclose])

/-! ## The walk over a tree under construction -/

namespace Builder

/-- The steps over the open elements, from outside in. -/
def walkOpen : List OpenElement → List WalkStep
  | [] => []
  | e :: outer =>
    walkOpen outer ++
      ⟨outer.map (·.head), .element e.head⟩ :: Node.walk (e.head :: outer.map (·.head)) e.children

/-- The steps over all that is complete or open. -/
def walk (b : Builder) : List WalkStep := Node.walk [] b.done ++ walkOpen b.opened

variable {b : Builder}

theorem walk_add (n : Node) : (b.add n).walk = b.walk ++ Node.walk b.heads [n] := by
  obtain ⟨done, opened, pending⟩ := b
  cases opened with
  | nil => simp [walk, walkOpen, add, heads, Node.walk_append]
  | cons e outer => simp [walk, walkOpen, add, heads, Node.walk_append, OpenElement.head]

theorem walk_flush : b.flush.walk = b.walk ++ textIn b.heads b.pending := by
  unfold flush textIn
  split
  · rw [List.append_nil]
    rfl
  · have hadd := walk_add (b := b) (.text b.pending)
    rw [Node.walk_text] at hadd
    exact hadd

/-- **A close tag takes nothing out of order.** -/
theorem walk_close : b.close.walk = b.walk := by
  obtain ⟨done, opened, pending⟩ := b
  cases opened with
  | nil => rfl
  | cons e outer =>
    show (add e.node ⟨done, outer, pending⟩).walk = _
    rw [walk_add, Node.walk_node, walk, walk, List.append_assoc]
    rfl

theorem walk_opening {t : Token} (hopen : t.kind = .openTag) :
    (b.step t).walk = b.walk ++ (textIn b.heads b.pending ++ [⟨b.heads, .element (headOf t)⟩]) := by
  rw [← List.append_assoc, ← walk_flush, ← heads_flush b, step, hopen]
  dsimp only
  split
  · simp [walk, walkOpen, heads, headOf, OpenElement.head]
  · rw [walk_add, Node.walk_element, Node.walk_nil]
    rfl

theorem walk_closing {t : Token} (hclose : t.kind = .closeTag) :
    (b.step t).walk = b.walk ++ textIn b.heads b.pending := by
  have hstep : b.step t = b.flush.close := by rw [step, hclose]
  rw [hstep, walk_close, walk_flush]

theorem pending_step {t : Token} (ht : isTag t = true) : (b.step t).pending = [] := by
  unfold step
  split
  case h_5 =>
    dsimp only
    split
    · exact flush_pending b
    · rw [add_pending, flush_pending]
  case h_6 => rw [close_pending, flush_pending]
  all_goals
    rename_i hk
    simp [isTag, hk] at ht

/-- A run of tokens that are no tags goes on with the pending text. -/
theorem foldl_run {run : List Token} (hrun : ∀ t ∈ run, isTag t = false) (b : Builder) :
    run.foldl step b = { b with pending := b.pending ++ shown run } := by
  induction run generalizing b with
  | nil => simp [shown]
  | cons t run ih =>
    rw [List.forall_mem_cons] at hrun
    rw [List.foldl_cons, ih hrun.2]
    obtain ⟨kind, text⟩ := t
    cases kind <;> simp [step, shown, isTag] at hrun ⊢

theorem walk_closeAll (done : List Node) (n : Node) (outer : List OpenElement) (pending : Text) :
    Node.walk [] (closeAll done n outer) =
      walk ⟨done, outer, pending⟩ ++ Node.walk (outer.map (·.head)) [n] := by
  induction outer generalizing n with
  | nil => simp [closeAll, walk, walkOpen, Node.walk_append]
  | cons e outer ih =>
    rw [closeAll, ih, Node.walk_node, Node.walk_append]
    simp [walk, walkOpen, OpenElement.head]

/-- **The finished tree** is walked over as the one under construction was. -/
theorem walk_finish : Node.walk [] b.finish = b.walk ++ textIn b.heads b.pending := by
  rw [← walk_flush]
  unfold finish
  dsimp only
  generalize b.flush = b
  obtain ⟨done, opened, pending⟩ := b
  cases opened with
  | nil => simp [walk, walkOpen]
  | cons e outer =>
    show Node.walk [] (closeAll done e.node outer) = _
    rw [walk_closeAll done _ outer pending, Node.walk_node, walk, List.append_assoc]
    rfl

end Builder

/-- **What is read off the tokens** is what a walk over the finished tree meets behind what is there already. -/
theorem Reads.walk {within : List Head} {ts : List Token} {steps : List WalkStep} (h : Reads within ts steps)
    {b : Builder} (hb : b.heads = within) (hp : b.pending = []) :
    Node.walk [] (ts.foldl Builder.step b).finish = b.walk ++ steps := by
  induction h generalizing b with
  | @ending within run hrun =>
    rw [Builder.foldl_run hrun, Builder.walk_finish, hp, List.nil_append, ← hb]
    rfl
  | @opening within run rest t steps hrun hopen hrest ih =>
    rw [List.foldl_append, List.foldl_cons, Builder.foldl_run hrun, hp, List.nil_append]
    rw [ih ?_ (Builder.pending_step (by simp [isTag, hopen])), Builder.walk_opening hopen, ← hb]
    · simp [Builder.walk, Builder.heads]
    · rw [Builder.heads_step, ← hb]
      split <;> simp_all [Builder.heads]
  | @closing within run rest t steps hrun hclose hrest ih =>
    rw [List.foldl_append, List.foldl_cons, Builder.foldl_run hrun, hp, List.nil_append]
    rw [ih ?_ (Builder.pending_step (by simp [isTag, hclose])), Builder.walk_closing hclose, ← hb]
    · simp [Builder.walk, Builder.heads]
    · rw [Builder.heads_step, ← hb]
      simp [hclose, Builder.heads]

/-- **Nothing of a page is lost, doubled or out of order in its tree,** whatever the page: its open tags make the elements
of the tree, one each and in order, and its tree is the one over which a walk meets what is read off its tokens. -/
theorem parse_visits (page : Text) :
    List.Forall₂ Element.Made ((tokens page).filter (·.kind == .openTag))
      ((Node.elements 0 (parse page)).map (·.2)) ∧
    ∀ nodes, Reads [] (tokens page) (Node.walk [] nodes) ↔ nodes = parse page := by
  have hwalk : ∀ {steps}, Reads [] (tokens page) steps → Node.walk [] (parse page) = steps := by
    intro steps h
    have hempty : Builder.empty.walk = [] := by simp [Builder.walk, Builder.empty, Builder.walkOpen]
    have := h.walk (b := .empty) rfl rfl
    rwa [hempty, List.nil_append] at this
  refine ⟨made_parse page, fun nodes => ⟨fun h => (Node.walk_inj (hwalk h)).symm, ?_⟩⟩
  rintro rfl
  obtain ⟨steps, h⟩ := exists_reads [] (tokens page)
  rwa [hwalk h]

/-- A close tag of another name, one of nothing, and an element left open. -/
example : Node.walk [] (parse "<p>a <br>< b</i> <!-- -->c</p><p title=x>") =
    [⟨[], .element ⟨"p", []⟩⟩, ⟨[⟨"p", []⟩], .text "a "⟩, ⟨[⟨"p", []⟩], .element ⟨"br", []⟩⟩, ⟨[⟨"p", []⟩], .text "< b"⟩,
      ⟨[], .text " c"⟩, ⟨[], .element ⟨"p", [("title", some "x")]⟩⟩] := by cbv

end Markup

end MarkupLens
