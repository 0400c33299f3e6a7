/-
The tree that a written forest is parsed into: its own shape with comments
left out, so that runs of text on both sides of one come together, and with
blank runs left out (`parse_written`).

The proof follows the builder over the pieces of the forest. What a forest
does to a builder is one equation (`flush_foldl_pieces`): once the pending
text is flushed, the nodes of the forest have been added to the innermost
open element, the text that was pending before at their front.
-/
import MarkupLens.Markup.Tree
import MarkupLens.Proofs.Markup.Forest

namespace MarkupLens

open Text (allBlank)
open Markup (Builder)

def Node.ofText (s : Text) : List Node := if allBlank s then [] else [.text s]

namespace Forest

/-- The nodes of a forest behind some text. -/
def nodesAfter (pending : Text) : Forest → List Node
  | .nil => Node.ofText pending
  | .text s rest => nodesAfter (pending ++ s) rest
  | .comment _ rest => nodesAfter pending rest
  | .element tag children rest =>
    Node.ofText pending ++
      .element tag.name (Markup.attributesOf tag.opened) (nodesAfter [] children) :: nodesAfter [] rest

def nodes (f : Forest) : List Node := nodesAfter [] f

end Forest

namespace Markup.Builder

open Token (glue join)

def addAll (nodes : List Node) (b : Builder) : Builder := nodes.foldl (fun b n => b.add n) b

theorem addAll_append (ns ms : List Node) (b : Builder) : b.addAll (ns ++ ms) = (b.addAll ns).addAll ms := by
  simp [addAll]

theorem flush_eq (b : Builder) : b.flush = ({ b with pending := [] } : Builder).addAll (Node.ofText b.pending) := by
  unfold flush Node.ofText
  split
  · rfl
  · cases h : b.opened <;> simp [addAll, add, h]

@[simp] theorem add_pending (n : Node) (b : Builder) : (b.add n).pending = b.pending := by
  unfold add
  split <;> rfl

@[simp] theorem addAll_pending (ns : List Node) (b : Builder) : (b.addAll ns).pending = b.pending := by
  induction ns generalizing b with
  | nil => rfl
  | cons n ns ih => exact (ih (b.add n)).trans (add_pending n b)

@[simp] theorem flush_pending (b : Builder) : b.flush.pending = [] := by rw [flush_eq, addAll_pending]

theorem close_pending (b : Builder) : b.close.pending = b.pending := by
  unfold close
  split
  · rfl
  · exact add_pending _ _

theorem addAll_opened (ns : List Node) (done : List Node) (e : OpenElement) (outer : List OpenElement)
    (pending : Text) :
    (⟨done, e :: outer, pending⟩ : Builder).addAll ns = ⟨done, ⟨e.tag, e.attributes, e.children ++ ns⟩ :: outer, pending⟩ := by
  induction ns generalizing e with
  | nil => simp [addAll]
  | cons n ns ih =>
    have := ih ⟨e.tag, e.attributes, e.children ++ [n]⟩
    rw [List.append_assoc] at this
    exact this

theorem addAll_done (ns : List Node) (done : List Node) (pending : Text) :
    (⟨done, [], pending⟩ : Builder).addAll ns = ⟨done ++ ns, [], pending⟩ := by
  induction ns generalizing done with
  | nil => simp [addAll]
  | cons n ns ih =>
    have := ih (done ++ [n])
    rw [List.append_assoc] at this
    exact this

/-! ## Runs of text -/

theorem step_text (b : Builder) (s : Text) : b.step ⟨.text, s⟩ = { b with pending := b.pending ++ s } := rfl

theorem foldl_glue (s : Text) (ts : List Token) (b : Builder) :
    (glue s ts).foldl step b = ts.foldl step { b with pending := b.pending ++ s } := by
  have hempty : s = [] → { b with pending := b.pending ++ s } = b := by
    rintro rfl
    simp
  cases ts with
  | nil => by_cases h : s = [] <;> simp [glue, h, step_text]
  | cons t ts =>
    obtain ⟨k, u⟩ := t
    by_cases hk : k = .text
    · subst hk
      simp [glue, step_text]
    · by_cases h : s = []
      · simp [glue, hk, h]
      · simp [glue, hk, h, step_text]

/-- The builder does not see where one run of text ends and the next one starts. -/
theorem foldl_join (ts : List Token) (b : Builder) : (join ts).foldl step b = ts.foldl step b := by
  induction ts generalizing b with
  | nil => rfl
  | cons t ts ih =>
    obtain ⟨k, s⟩ := t
    by_cases hk : k = .text
    · subst hk
      simp only [join, if_true, foldl_glue, List.foldl_cons, ih, step_text]
    · simp only [join, hk, if_false, List.foldl_cons, ih]

/-! ## Elements -/

/-- An open tag and a close tag, with what adds some nodes between them, add the element of these nodes. -/
theorem foldl_element {start close : Token} (hopen : start.kind = .openTag)
    (hb : (OpenTag.scan start.text).hasBody = true) (hclose : close.kind = .closeTag) {ts : List Token}
    {children : List Node} (hc : ∀ b : Builder, b.pending = [] → (ts.foldl step b).flush = b.addAll children)
    (b : Builder) : (start :: (ts ++ [close])).foldl step b =
      b.flush.add (.element (OpenTag.scan start.text).name (attributesOf (OpenTag.scan start.text)) children) := by
  have hpending := flush_pending b
  have hfirst : b.step start = { b.flush with
      opened := ⟨(OpenTag.scan start.text).name, attributesOf (OpenTag.scan start.text), []⟩ :: b.flush.opened } := by
    simp only [step, hopen, hb, if_true]
  have hlast : ∀ b' : Builder, b'.step close = b'.flush.close := fun b' => by simp only [step, hclose]
  rw [List.foldl_cons, List.foldl_append, List.foldl_cons, List.foldl_nil, hfirst, hlast]
  generalize b.flush = b at hpending
  obtain ⟨done, opened, pending⟩ := b
  obtain rfl : pending = [] := hpending
  rw [hc ⟨done, _ :: opened, []⟩ rfl, addAll_opened]
  rfl

/-- The same for a tag in the plain style. -/
theorem foldl_plain {t : PlainTag} (h : t.Legible) (hb : t.hasBody = true) {ts : List Token} {children : List Node}
    (hc : ∀ b : Builder, b.pending = [] → (ts.foldl step b).flush = b.addAll children) (b : Builder) :
    (t.openToken :: (ts ++ [t.closeToken])).foldl step b =
      b.flush.add (.element t.name (attributesOf t.opened) children) := by
  have hscan : OpenTag.scan t.openToken.text = t.opened := h.scan_written
  have hbody : (OpenTag.scan t.openToken.text).hasBody = true := by rw [hscan, PlainTag.hasBody_opened, hb]
  rw [foldl_element rfl hbody rfl hc, hscan, PlainTag.name_opened]

/-- An open tag without a body adds its element at once. -/
theorem step_childless {t : PlainTag} (h : t.Legible) (hb : t.hasBody = false) (b : Builder) :
    b.step t.openToken = b.flush.add (.element t.name (attributesOf t.opened) []) := by
  simp [step, PlainTag.openToken, h.scan_written, hb]

/-- **Whole tokens that add nodes to an empty tree** are those of a page with these nodes. -/
theorem parse_of_whole {ts : List Token} (hwhole : ∀ t ∈ ts, t.Whole) {ns : List Node}
    (h : (ts.foldl step .empty).flush = Builder.empty.addAll ns) : parse (Token.source ts) = ns := by
  rw [show Builder.empty = ⟨[], [], []⟩ from rfl, addAll_done] at h
  rw [parse, treeOf, tokens_source hwhole, foldl_join, finish]
  rw [show Builder.empty = ⟨[], [], []⟩ from rfl, h]
  rfl

/-! ## Forests -/

/-- **What a forest does to a builder:** its nodes are added, those before it being flushed. -/
theorem flush_foldl_pieces {f : Forest} (h : f.WellFormed) (b : Builder) :
    (f.pieces.foldl step b).flush = ({ b with pending := [] } : Builder).addAll (f.nodesAfter b.pending) := by
  induction f generalizing b with
  | nil => exact flush_eq b
  | text s rest ih =>
    simp only [Forest.pieces, List.foldl_cons, step_text, ih h.2]
    rfl
  | comment s rest ih =>
    simp only [Forest.pieces, List.foldl_cons, Forest.nodesAfter]
    exact ih h.2.2 b
  | element tag children rest ihc ihr =>
    obtain ⟨htag, hnil, hc, hr⟩ := h
    have hrest : ∀ n : Node, (rest.pieces.foldl step (b.flush.add n)).flush = b.flush.addAll (n :: rest.nodesAfter []) := by
      intro n
      have hp : (b.flush.add n).pending = [] := by rw [add_pending, flush_pending]
      rw [ihr hr, hp]
      exact congrArg (addAll _) (by rw [← hp])
    rw [Forest.nodesAfter, addAll_append, ← flush_eq]
    cases hb : tag.hasBody with
    | true =>
      have hchildren : ∀ b : Builder, b.pending = [] →
          (children.pieces.foldl step b).flush = b.addAll (children.nodesAfter []) := by
        intro b hp
        have hsame : ({ b with pending := [] } : Builder) = b := by rw [← hp]
        rw [ihc hc, hp, hsame]
      have hpieces : (Forest.element tag children rest).pieces =
          (tag.openToken :: (children.pieces ++ [tag.closeToken])) ++ rest.pieces := by simp [Forest.pieces, hb]
      rw [hpieces, List.foldl_append, foldl_plain htag.legible hb hchildren]
      exact hrest _
    | false =>
      obtain rfl := hnil hb
      have hpieces : (Forest.element tag .nil rest).pieces = tag.openToken :: rest.pieces := by simp [Forest.pieces, hb]
      rw [hpieces, List.foldl_cons, step_childless htag.legible hb]
      exact hrest _

end Markup.Builder

/-- **A written forest is parsed into its nodes.** -/
theorem Forest.parse_written {f : Forest} (h : f.WellFormed) : Markup.parse f.written = f.nodes :=
  Builder.parse_of_whole (fun _ ht => whole_of_mem_pieces h ht) (Builder.flush_foldl_pieces h .empty)

end MarkupLens
