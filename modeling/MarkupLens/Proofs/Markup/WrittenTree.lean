/-
Trees written out as markup and read again. A tree whose tags are legible,
whose texts are neither blank nor broken by a `<` and do not touch each other,
and whose void elements are empty (`Node.WellFormed`) is what its markup is
parsed into, whichever of its empty elements are closed by a slash
(`parse_written_tree`).

A written tree is put together from tokens that are cut off whatever follows,
and these tokens add its nodes to whatever tree is under construction
(`Builds`); each way of writing a node has its own lemma.
-/
import MarkupLens.Proofs.Markup.ForestTree

namespace MarkupLens

open Text (allBlank)
open Markup (Builder attributesOf parse)

namespace Node

/-- The node is a run of text. -/
def isText : Node → Bool
  | .text _ => true
  | .element _ _ _ => false

/-- The tag that an element is written with. -/
def openedBy (tag : Text) (attributes : Attributes) (slash : Bool) : PlainTag := ⟨tag, attributes, slash⟩

/-- Nodes that can be told from their markup. The attributes of an element stand in the order of their names, one of
each name. -/
inductive WellFormed : List Node → Prop where
  | nil : WellFormed []
  | text {s : Text} {ns : List Node} (hblank : allBlank s = false) (hangle : '<' ∉ s)
    (hnext : ∀ n ∈ ns.head?, n.isText = false) (hns : WellFormed ns) : WellFormed (.text s :: ns)
  | element {tag : Text} {attributes : Attributes} {children ns : List Node}
    (htag : (openedBy tag attributes false).Legible) (hsorted : attributes.Sorted)
    (hvoid : isVoid tag = true → children = []) (hchildren : WellFormed children) (hns : WellFormed ns) :
    WellFormed (.element tag attributes children :: ns)

/-- The markup that nodes are written to: every attribute behind a space, its value in double quotes; an element as its
open tag, its children and its close tag; a void element as its open tag alone; an element without children, if that is
wanted, as an open tag that ends with a slash. -/
inductive Written : List Node → Text → Prop where
  | nil : Written [] []
  | text {s : Text} {ns : List Node} {rest : Text} (hns : Written ns rest) : Written (.text s :: ns) (s ++ rest)
  | element {tag : Text} {attributes : Attributes} {children ns : List Node} {inner rest : Text}
    (hvoid : isVoid tag = false) (hchildren : Written children inner) (hns : Written ns rest) :
    Written (.element tag attributes children :: ns)
      ((openedBy tag attributes false).written ++ inner ++ ("</" ++ tag ++ ">") ++ rest)
  | void {tag : Text} {attributes : Attributes} {ns : List Node} {rest : Text} (hvoid : isVoid tag = true)
    (hns : Written ns rest) :
    Written (.element tag attributes [] :: ns) ((openedBy tag attributes false).written ++ rest)
  | slashed {tag : Text} {attributes : Attributes} {ns : List Node} {rest : Text} (hns : Written ns rest) :
    Written (.element tag attributes [] :: ns) ((openedBy tag attributes true).written ++ rest)

/-- Every tree can be written. -/
theorem WellFormed.exists_written {ns : List Node} (h : WellFormed ns) : ∃ s, Written ns s := by
  induction h with
  | nil => exact ⟨_, .nil⟩
  | text hblank hangle hnext hns ih =>
    obtain ⟨rest, hrest⟩ := ih
    exact ⟨_, .text hrest⟩
  | @element tag attributes children ns htag hsorted hvoid hchildren hns ihc ih =>
    obtain ⟨inner, hinner⟩ := ihc
    obtain ⟨rest, hrest⟩ := ih
    cases hv : isVoid tag with
    | false => exact ⟨_, .element hv hinner hrest⟩
    | true =>
      obtain rfl := hvoid hv
      exact ⟨_, .void hv hrest⟩

end Node

open Node (openedBy)

/-! ## Tokens that build nodes -/

/-- The tokens stand behind the text that they are put together to, and add the nodes to what is under construction. A
run of text is a node of its own only where no other text is in front of it. -/
structure Builds (ts : List Token) (s : Text) (ns : List Node) : Prop where
  source : Token.source ts = s
  whole : ∀ t ∈ ts, t.Whole
  flush_foldl : ∀ b : Builder, (b.pending = [] ∨ ∀ n ∈ ns.head?, n.isText = false) →
    (ts.foldl Builder.step b).flush = b.flush.addAll ns

namespace Builds

variable {ts inner : List Token} {s u : Text} {ns children : List Node} {tag : Text} {attributes : Attributes}

/-- Written attributes are those of the element. -/
theorem attributesOf_openedBy (hsorted : attributes.Sorted) (slash : Bool) :
    attributesOf (openedBy tag attributes slash).opened = attributes := by
  refine (Markup.sorted_attributesOf _).ext hsorted fun name => ?_
  rw [Markup.lookup_attributesOf]
  simp [PlainTag.opened, openedBy, Function.comp_def]

theorem flush_of_pending_nil {b : Builder} (h : b.pending = []) : b.flush = b := by
  obtain ⟨done, opened, pending⟩ := b
  obtain rfl : pending = [] := h
  rfl

theorem nil : Builds [] [] [] := ⟨rfl, by simp, fun _ _ => rfl⟩

theorem text (hblank : allBlank s = false) (hangle : '<' ∉ s) (hnext : ∀ n ∈ ns.head?, n.isText = false)
    (h : Builds ts u ns) : Builds (⟨.text, s⟩ :: ts) (s ++ u) (.text s :: ns) := by
  have hwhole : Token.Whole ⟨.text, s⟩ := by simpa [Token.Whole] using hangle
  refine ⟨by rw [Token.source_cons, h.source], List.forall_mem_cons.2 ⟨hwhole, h.whole⟩, fun b hb => ?_⟩
  have hp : b.pending = [] := by simpa [Node.isText] using hb
  rw [List.foldl_cons, Builder.step_text, h.flush_foldl _ (.inr hnext), Builder.flush_eq, hp, List.nil_append,
    Node.ofText, if_neg (by simp [hblank]), ← Builder.addAll_append, flush_of_pending_nil hp]
  exact congrArg (Builder.addAll _) (by rw [← hp])

/-- Tokens that add an element at once, and others behind them. -/
theorem cons_element {os : List Token} {n : Node} (hwhole : ∀ t ∈ os, t.Whole)
    (hos : ∀ b : Builder, os.foldl Builder.step b = b.flush.add n) (h : Builds ts u ns) :
    Builds (os ++ ts) (Token.source os ++ u) (n :: ns) := by
  refine ⟨by rw [Token.source_append, h.source], fun t ht => ?_, fun b _ => ?_⟩
  · exact (List.mem_append.1 ht).elim (hwhole t) (h.whole t)
  · have hp : (b.flush.add n).pending = [] := by rw [Builder.add_pending, Builder.flush_pending]
    rw [List.foldl_append, hos, h.flush_foldl _ (.inl hp), flush_of_pending_nil hp]
    rfl

theorem element (htag : (openedBy tag attributes false).Legible) (hsorted : attributes.Sorted)
    (hvoid : isVoid tag = false) (hc : Builds inner s children) (h : Builds ts u ns) :
    Builds ((openedBy tag attributes false).openToken :: (inner ++ [(openedBy tag attributes false).closeToken]) ++ ts)
      ((openedBy tag attributes false).written ++ s ++ ("</" ++ tag ++ ">") ++ u)
      (.element tag attributes children :: ns) := by
  have hbody : (openedBy tag attributes false).hasBody = true := by simp [PlainTag.hasBody, openedBy, hvoid]
  have hsource : Token.source ((openedBy tag attributes false).openToken ::
      (inner ++ [(openedBy tag attributes false).closeToken])) =
        (openedBy tag attributes false).written ++ s ++ ("</" ++ tag ++ ">") := by
    rw [Token.source_cons, Token.source_append, hc.source, List.append_assoc]
    simp [PlainTag.openToken, PlainTag.closeToken, openedBy]
  rw [← hsource]
  refine cons_element ?_ (fun b => ?_) h
  · intro t ht
    rw [List.mem_cons, List.mem_append, List.mem_singleton] at ht
    rcases ht with rfl | ht | rfl
    · exact htag.whole_openToken
    · exact hc.whole t ht
    · exact htag.whole_closeToken
  · have hinner : ∀ b : Builder, b.pending = [] → (inner.foldl Builder.step b).flush = b.addAll children := by
      intro b hp
      rw [hc.flush_foldl b (.inl hp), flush_of_pending_nil hp]
    rw [Builder.foldl_plain htag hbody hinner, attributesOf_openedBy hsorted]
    rfl

theorem childless {slash : Bool} (htag : (openedBy tag attributes slash).Legible) (hsorted : attributes.Sorted)
    (hbody : (openedBy tag attributes slash).hasBody = false) (h : Builds ts u ns) :
    Builds ([(openedBy tag attributes slash).openToken] ++ ts) ((openedBy tag attributes slash).written ++ u)
      (.element tag attributes [] :: ns) := by
  have hsource : Token.source [(openedBy tag attributes slash).openToken] = (openedBy tag attributes slash).written := by
    simp [PlainTag.openToken]
  rw [← hsource]
  refine cons_element (by simpa using htag.whole_openToken) (fun b => ?_) h
  rw [List.foldl_cons, List.foldl_nil, Builder.step_childless htag hbody, attributesOf_openedBy hsorted]
  rfl

end Builds

/-- **A written tree** is put together from tokens that build it. -/
theorem Node.Written.exists_builds {ns : List Node} {s : Text} (h : Written ns s) (hw : WellFormed ns) :
    ∃ ts, Builds ts s ns := by
  induction h with
  | nil => exact ⟨_, .nil⟩
  | text hns ih =>
    cases hw with
    | text hblank hangle hnext hw =>
      obtain ⟨ts, h⟩ := ih hw
      exact ⟨_, h.text hblank hangle hnext⟩
  | element hvoid hchildren hns ihc ih =>
    cases hw with
    | element htag hsorted _ hwc hw =>
      obtain ⟨inner, hc⟩ := ihc hwc
      obtain ⟨ts, h⟩ := ih hw
      exact ⟨_, .element htag hsorted hvoid hc h⟩
  | void hvoid hns ih =>
    cases hw with
    | element htag hsorted _ _ hw =>
      obtain ⟨ts, h⟩ := ih hw
      exact ⟨_, .childless htag hsorted (by simp [PlainTag.hasBody, openedBy, hvoid]) h⟩
  | slashed hns ih =>
    cases hw with
    | element htag hsorted _ _ hw =>
      obtain ⟨ts, h⟩ := ih hw
      exact ⟨_, .childless ⟨htag.letter, htag.name, htag.names, htag.values⟩ hsorted rfl h⟩

/-- **Parsing undoes writing:** a tree that can be told from its markup can be written, and whatever it is written to is
parsed into the tree. -/
theorem parse_written_tree {ns : List Node} (hw : Node.WellFormed ns) :
    (∃ s, Node.Written ns s) ∧ ∀ s, Node.Written ns s → parse s = ns := by
  refine ⟨hw.exists_written, fun s h => ?_⟩
  obtain ⟨ts, h⟩ := h.exists_builds hw
  rw [← h.source]
  exact Builder.parse_of_whole h.whole (h.flush_foldl .empty (.inl rfl))

/-- A list with an attribute of either sort, a void element and an empty one, between two texts. -/
def menuTree : List Node :=
  [.text "a > b",
    .element "ul" [("class", some "x<y/"), ("hidden", none)]
      [.element "li" [] [.text "1"], .element "br" [] [], .element "li" [("id", some "")] []],
    .text "end"]

theorem parse_written_tree_menuTree :
    Node.WellFormed menuTree ∧
      parse "a > b<ul class=\"x<y/\" hidden><li>1</li><br><li id=\"\"/></ul>end" = menuTree := by
  have hw : Node.WellFormed menuTree := by
    have hitems : Node.WellFormed [.element "li" [] [.text "1"], .element "br" [] [], .element "li" [("id", some "")] []] :=
      .element (by decide +kernel) (by decide) (by decide) (.text (by decide) (by decide) (by decide) .nil)
        (.element (by decide +kernel) (by decide) (by decide) .nil
          (.element (by decide +kernel) (by decide) (by decide) .nil .nil))
    exact .text (by decide) (by decide) (by decide)
      (.element (by decide +kernel) (by decide) (by decide) hitems (.text (by decide) (by decide) (by decide) .nil))
  have hs : Node.Written menuTree "a > b<ul class=\"x<y/\" hidden><li>1</li><br><li id=\"\"/></ul>end" :=
    .text (.element (by decide) (.element (by decide) (.text .nil) (.void (by decide) (.slashed .nil))) (.text .nil))
  exact ⟨hw, (parse_written_tree hw).2 _ hs⟩

end MarkupLens
