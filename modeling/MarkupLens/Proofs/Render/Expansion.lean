/-
What a container does with its element. The walk renders the tokens between
the two tags where they stand in the page; as markup between two boundaries
is cut on its own as it is cut in the page, that is a rendering of the text
between the tags, on its own and with the record of the container as all that
is bound (`renderWith_inner`). So an element is its edited open tag, one such
rendering for each record, and its close tag, or it is copied
(`render_container`). The body may be any markup.
-/
import MarkupLens.Proofs.Markup.Boundary
import MarkupLens.Proofs.Render.Plans
import MarkupLens.Proofs.Render.TagRewriting

namespace MarkupLens

open Markup (matchingClose? splitAtClose tokens)

variable {table : DirectiveTable} {c : Context}

/-! ## The container of a tag -/

namespace SitedAttributes

theorem container?_claim (l : List Attribute) :
    container? (Site.claim table false l) = (l.filterMap (Site.of? table)).find? Site.isContainer := by
  induction l with
  | nil => rfl
  | cons a l ih =>
    simp only [container?, sites] at ih ⊢
    cases hs : Site.of? table a with
    | none => simp [Site.claim, hs, ih]
    | some s => cases hc : s.isContainer <;> simp [Site.claim, hs, hc, ih]

/-- Giving up content leaves the container. -/
theorem container?_release_content (attributes : SitedAttributes) :
    (attributes.release Site.isContent).container? = attributes.container? := by
  rw [container?, container?, sites_release]
  refine PlainTag.find?_filter_of_first fun s hs => ?_
  rw [PlainTag.isContent_of_isContainer (List.find?_some hs), Bool.not_false]

/-- **The container of a tag** is the first of its directives that is one. -/
theorem container?_of (tag : OpenTag) :
    (of table tag).container? = (tag.attributes.filterMap (Site.of? table)).find? Site.isContainer := by
  unfold of
  dsimp only
  split
  · rw [container?_release_content, container?_claim]
  · exact container?_claim _

end SitedAttributes

/-- A container has no records unless it is a loop on a list or a scope on a record. -/
theorem Site.scopes?_eq_none {s : Site} (hloop : ∀ items, s.kind.binding = .loop → c.get? s.key ≠ some (.list items))
    (hscope : ∀ record, s.kind.binding = .scope → c.get? s.key ≠ some (.record record)) : s.scopes? c = none := by
  unfold scopes?
  split
  · rename_i items hb hget
    exact absurd hget (hloop items hb)
  · rename_i record hb hget
    exact absurd hget (hscope record hb)
  · rfl

namespace Render

/-! ## An element on its own -/

/-- A page that is one element with a body, and nothing that is no token behind it: the open tag, what stands in the
element, and the close tag that matches. -/
structure IsElement (page : Text) (t : Token) (inner : List Token) (close : Token) : Prop where
  tail : Markup.tail page = []
  tokens : Markup.tokens page = t :: (inner ++ [close])
  kind : t.kind = .openTag
  hasBody : (OpenTag.scan t.text).hasBody = true
  closed : matchingClose? (Markup.tokens page) 0 = some (inner.length + 1)

instance (page : Text) (t : Token) (inner : List Token) (close : Token) : Decidable (IsElement page t inner close) :=
  decidable_of_iff (Markup.tail page = [] ∧ Markup.tokens page = t :: (inner ++ [close]) ∧ t.kind = .openTag ∧
      (OpenTag.scan t.text).hasBody = true ∧ matchingClose? (Markup.tokens page) 0 = some (inner.length + 1))
    ⟨fun ⟨h1, h2, h3, h4, h5⟩ => ⟨h1, h2, h3, h4, h5⟩, fun ⟨h1, h2, h3, h4, h5⟩ => ⟨h1, h2, h3, h4, h5⟩⟩

namespace IsElement

variable {page : Text} {t close : Token} {inner : List Token} (h : IsElement page t inner close)

include h

theorem page_eq : page = t.text ++ Token.source inner ++ close.text := by
  have hs := Markup.source_tokens_append_tail page
  rw [h.tail, h.tokens, List.append_nil] at hs
  simpa using hs.symm

theorem split : splitAtClose (OpenTag.scan t.text).name 0 (inner ++ [close]) = some ⟨inner, close, []⟩ := by
  have hclosed := h.closed
  rw [h.tokens] at hclosed
  simp only [matchingClose?, List.drop_zero, h.kind, if_true, Option.map_eq_some_iff] at hclosed
  obtain ⟨⟨inner', close', after⟩, he, hlength⟩ := hclosed
  -- the close tag stands at the place where the tokens end
  have hparts := Markup.splitAtClose_eq he
  simp only [Nat.zero_add, Nat.add_comm 1, Nat.add_right_cancel_iff] at hlength
  obtain ⟨rfl, hrest⟩ := List.append_inj hparts hlength.symm
  cases hrest
  exact he

theorem plan_container {s : Site} (hs : (t.directives table).find? Site.isContainer = some s) :
    plan table t (inner ++ [close]) = .container (OpenTag.scan t.text)
      (SitedAttributes.of table (OpenTag.scan t.text)) s ⟨inner, close, []⟩ := by
  have hcontainer : (SitedAttributes.of table (OpenTag.scan t.text)).container? = some s := by
    rw [SitedAttributes.container?_of]
    rwa [Token.directives, if_pos h.kind] at hs
  have hsites : (SitedAttributes.of table (OpenTag.scan t.text)).sites.isEmpty = false := by
    rw [List.isEmpty_eq_false_iff]
    exact List.ne_nil_of_mem (List.mem_of_find?_eq_some hcontainer)
  have hbody : bodyOf? (OpenTag.scan t.text) (inner ++ [close]) = some ⟨inner, close, []⟩ := by
    rw [bodyOf?, if_pos h.hasBody, h.split]
  have hall : sitesOf table (OpenTag.scan t.text) (inner ++ [close]) = SitedAttributes.of table (OpenTag.scan t.text) := by
    simp [sitesOf, hbody]
  rw [plan, if_pos ⟨h.kind, Token.holds_triggerStem (List.mem_of_find?_eq_some hs)⟩, planTag_eq, hall, hbody]
  simp only [planSites, hsites, hcontainer, Bool.false_eq_true, if_false]

/-- **What stands in an element** is rendered in its place as it is on its own. -/
theorem renderWith_inner (table : DirectiveTable) (c : Context) :
    renderWith table c (Token.source inner) = renderTokens table c inner := by
  have hinner : Markup.tokens page = [t] ++ inner ++ [close] := h.tokens
  rw [renderWith, Markup.tokens_source_between hinner]

/-- The walk over an element is that over its body, once for each record of the container. -/
theorem renderWith_scopes {s : Site} (hs : (t.directives table).find? Site.isContainer = some s) (c : Context) :
    renderWith table c page =
      ((s.scopes? c).map fun scopes =>
        editTag c (OpenTag.scan t.text) (SitedAttributes.of table (OpenTag.scan t.text)) ++
          scopes.flatMap (fun scope => renderWith table scope (Token.source inner)) ++ close.text).getD page := by
  have hwalk := renderTokens_container (c := c) (h.plan_container hs)
  rw [renderTokens_nil, List.append_nil] at hwalk
  rw [renderWith, h.tokens, hwalk]
  cases s.scopes? c with
  | none => exact h.page_eq.symm
  | some scopes => simp only [h.renderWith_inner, Option.map_some, Option.getD_some]

end IsElement

/-- **Expansion renders the body on its own, once for each record.** An element whose first container is a loop on a
list is its open tag, edited, the text between its tags rendered against each item, and its close tag; one that is a
scope on a record has that text rendered against the record; and with anything else bound to the key it is copied, the
directives on its tag and in it included. -/
theorem render_container (table : DirectiveTable) (c : Context) {page : Text} {t close : Token} {inner : List Token}
    (h : IsElement page t inner close) {s : Site} (hs : (t.directives table).find? Site.isContainer = some s) :
    page = t.text ++ Token.source inner ++ close.text ∧
    (∀ items, s.kind.binding = .loop → c.get? s.key = some (.list items) →
      renderWith table c page =
        editTag c (OpenTag.scan t.text) (SitedAttributes.of table (OpenTag.scan t.text)) ++
          items.flatMap (fun item => renderWith table item (Token.source inner)) ++ close.text) ∧
    (∀ record, s.kind.binding = .scope → c.get? s.key = some (.record record) →
      renderWith table c page =
        editTag c (OpenTag.scan t.text) (SitedAttributes.of table (OpenTag.scan t.text)) ++
          renderWith table record (Token.source inner) ++ close.text) ∧
    ((∀ items, s.kind.binding = .loop → c.get? s.key ≠ some (.list items)) →
      (∀ record, s.kind.binding = .scope → c.get? s.key ≠ some (.record record)) →
      renderWith table c page = page) := by
  refine ⟨h.page_eq, fun items hb hget => ?_, fun record hb hget => ?_, fun hloop hscope => ?_⟩
  · have hscopes : s.scopes? c = some items := by simp only [Site.scopes?, hb, hget]
    rw [h.renderWith_scopes hs, hscopes, Option.map_some, Option.getD_some]
  · have hscopes : s.scopes? c = some [record] := by simp only [Site.scopes?, hb, hget]
    rw [h.renderWith_scopes hs, hscopes, Option.map_some, Option.getD_some, List.flatMap_singleton]
  · rw [h.renderWith_scopes hs, Site.scopes?_eq_none hloop hscope, Option.map_none, Option.getD_none]

/-- A list whose body opens a tag that it does not close, closes one that it does not open, and ends in a `<`. -/
def brokenList : Text := "<ul data-nyanLoop=\"rows\"><li data-nyanClass=\"shade\">x</b> <</ul>"

theorem render_container_brokenList :
    IsElement brokenList ⟨.openTag, "<ul data-nyanLoop=\"rows\">"⟩
      (tokens "<li data-nyanClass=\"shade\">x</b> <") ⟨.closeTag, "</ul>"⟩ ∧
    renderWith .standard (.ofList [("rows", .list [.ofList [("shade", .text "dark")], .empty])]) brokenList =
      "<ul data-nyanDoneLoop=\"rows\"><li class=\"dark\" data-nyanDoneClass=\"shade\">x</b> <".toList ++
        "<li class=\"\" data-nyanDoneClass=\"shade\">x</b> <</ul>".toList := by
  have helement : IsElement brokenList ⟨.openTag, "<ul data-nyanLoop=\"rows\">"⟩
      (tokens "<li data-nyanClass=\"shade\">x</b> <") ⟨.closeTag, "</ul>"⟩ := by decide +kernel
  have hloop : (Token.directives .standard ⟨.openTag, "<ul data-nyanLoop=\"rows\">"⟩).find? Site.isContainer =
      some ⟨.loop, "rows"⟩ := by decide +kernel
  refine ⟨helement, ((render_container .standard _ helement hloop).2.1 _ rfl rfl).trans ?_⟩
  decide +kernel

end Render

end MarkupLens
