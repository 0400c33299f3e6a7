/-
The walk over tokens does what evaluation says on trees: a written forest is
rendered to the evaluated forest, written (`render_written`), so the page
that comes out is parsed into the evaluated forest's nodes.

One induction over the forest carries it, for any tokens behind the forest
(`renderTokens_pieces`). At an element it needs that the walk finds the
element's own close tag, whatever elements of the same name stand inside
(`splitAtClose_pieces`), and that the plan for the tag is the element's fate.
-/
import MarkupLens.Proofs.Markup.ForestTree
import MarkupLens.Proofs.Render.Plans
import MarkupLens.Proofs.Render.TagRewriting

namespace MarkupLens

open Text (allBlank trim)
open Markup (splitAtClose closes opens)
open Render (Plan plan planTag planSites renderTokens loneComment?)

variable {table : DirectiveTable}

namespace Forest

/-! ## The close tag of an element -/

theorem opens_openToken {t : PlainTag} (h : t.WellFormed) (name : Text) :
    opens name t.openToken = (Text.sameName t.name name && t.hasBody) := by
  simp [opens, PlainTag.openToken, h]

theorem closes_openToken (t : PlainTag) (name : Text) : closes name t.openToken = false := by
  simp [closes, PlainTag.openToken, show (TokenKind.openTag == TokenKind.closeTag) = false from rfl]

theorem closes_closeToken {t : PlainTag} (h : t.WellFormed) (name : Text) :
    closes name t.closeToken = Text.sameName t.name name := by
  have hk : (t.closeToken.kind == TokenKind.closeTag) = true := rfl
  rw [closes, hk, Bool.true_and, t.closeTagName_closeToken h]

theorem opens_closeToken (t : PlainTag) (name : Text) : opens name t.closeToken = false := by
  simp [opens, PlainTag.closeToken, show (TokenKind.closeTag == TokenKind.openTag) = false from rfl]

/-- **A forest closes what it opens,** so a close tag behind it is met at the depth in front of it. -/
theorem splitAtClose_pieces {f : Forest} (h : f.WellFormed) (name : Text) (depth : Nat) (rest : List Token) :
    splitAtClose name depth (f.pieces ++ rest) =
      (splitAtClose name depth rest).map fun e => { e with inner := f.pieces ++ e.inner } := by
  induction f generalizing depth rest with
  | nil => simp [pieces]
  | text s f ih =>
    simp [pieces, Render.splitAtClose_text, ih h.2, Function.comp_def]
  | comment s f ih =>
    have hc : ∀ u, closes name ⟨.comment, u⟩ = false := fun u => by
      simp [closes, show (TokenKind.comment == TokenKind.closeTag) = false from rfl]
    have ho : ∀ u, opens name ⟨.comment, u⟩ = false := fun u => by
      simp [opens, show (TokenKind.comment == TokenKind.openTag) = false from rfl]
    simp [pieces, splitAtClose, hc, ho, ih h.2.2, Function.comp_def]
  | element tag children f ihc ihr =>
    obtain ⟨htag, hnil, hch, hf⟩ := h
    have ihc' := fun depth rest => ihc hch depth rest
    have ihr' := fun depth rest => ihr hf depth rest
    cases hb : tag.hasBody with
    | false =>
      simp [pieces, hb, hnil hb, splitAtClose, closes_openToken, opens_openToken htag, ihr', Function.comp_def]
    | true =>
      simp only [pieces, hb, if_true, List.cons_append, List.append_assoc, splitAtClose, closes_openToken,
        opens_openToken htag, Bool.and_true, Bool.false_eq_true, if_false, ihc', closes_closeToken htag,
        opens_closeToken]
      cases hn : Text.sameName tag.name name <;> simp [ihr', Function.comp_def]

/-! ## A comment standing alone -/

theorem commentText_written (s : Text) : Render.commentText ("<!--" ++ s ++ "-->") = trim s := by
  rw [Render.commentText, List.append_assoc, Text.dropStart_append, Text.dropEnding_append_self]

theorem loneComment?_found (u : Text) (f : Forest) :
    loneComment? (some u) f.pieces = if f.withoutBlanks = .nil then some u else none := by
  induction f with
  | nil => rfl
  | text s f ih => cases hs : allBlank s <;> simp [pieces, loneComment?, withoutBlanks, hs, ih]
  | comment s f ih => simp [pieces, loneComment?, withoutBlanks]
  | element tag children f _ ih => simp [pieces, loneComment?, withoutBlanks, PlainTag.openToken]

theorem loneComment?_pieces (f : Forest) : loneComment? none f.pieces = f.placeholder? := by
  induction f with
  | nil => rfl
  | text s f ih =>
    cases hs : allBlank s
    · simp [pieces, loneComment?, placeholder?, withoutBlanks, hs]
    · simp only [pieces, loneComment?, hs, if_true, ih, placeholder?, withoutBlanks]
  | comment s f ih =>
    simp only [pieces, loneComment?, Option.isNone_none, if_true, loneComment?_found, commentText_written,
      placeholder?, withoutBlanks]
    cases f.withoutBlanks <;> simp
  | element tag children f _ ih => simp [pieces, loneComment?, placeholder?, withoutBlanks, PlainTag.openToken]

end Forest

namespace PlainTag

/-! ## Plans -/

theorem directives_openToken {t : PlainTag} (h : t.WellFormed) : t.openToken.directives table = t.sites table := by
  have hkind : t.openToken.kind = .openTag := rfl
  have hscan : OpenTag.scan t.openToken.text = t.opened := scan_written h
  rw [Token.directives, if_pos hkind, hscan, opened, List.filterMap_map]
  rfl

theorem container?_of_sites_nil {t : PlainTag} (h : t.sites table = []) : t.container? table = none := by
  simp [container?, h]

theorem content?_of_sites_nil {t : PlainTag} (h : t.sites table = []) : t.content? table = none := by
  simp [content?, h]

theorem sites_sited_ne_nil {t : PlainTag} (h : t.sites table ≠ []) : (t.sited table).sites ≠ [] := by
  rw [sites_sited]
  intro hnil
  rw [List.filter_eq_nil_iff] at hnil
  cases hc : t.container? table with
  | some s => exact hnil s (List.mem_of_find?_eq_some hc) (carries_container hc)
  | none =>
    obtain ⟨s, hs⟩ := List.exists_mem_of_ne_nil _ h
    exact hnil s hs (by rw [hc]; rfl)

theorem plan_of_sites_nil {t : PlainTag} (h : t.WellFormed) (hs : t.sites table = []) (rest : List Token) :
    plan table t.openToken rest = .copy := by
  have hsited : (t.sited table).sites = [] := by rw [sites_sited, hs]; rfl
  have hrelease : ∀ given, ((t.sited table).release given).sites = [] := by
    intro given
    have := hsited
    simp only [SitedAttributes.sites, SitedAttributes.release, List.filterMap_map, List.filterMap_eq_nil_iff] at this ⊢
    intro p hp
    simp [this p hp]
  have htag : planTag table t.opened rest = .copy := by
    simp [planTag, of_opened h, hsited, planSites, hrelease]
  unfold plan
  split
  · exact (congrArg (planTag table · rest) (scan_written h)).trans htag
  · rfl

theorem plan_openToken {t : PlainTag} (h : t.WellFormed) (hs : t.sites table ≠ []) (rest : List Token) :
    plan table t.openToken rest = planTag table t.opened rest := by
  obtain ⟨s, hmem⟩ := List.exists_mem_of_ne_nil _ hs
  have hkind : t.openToken.kind = .openTag := rfl
  have hscan : OpenTag.scan t.openToken.text = t.opened := scan_written h
  rw [← directives_openToken h] at hmem
  rw [plan, if_pos ⟨hkind, Token.holds_triggerStem hmem⟩, hscan]

theorem plan_of_close {t : PlainTag} (h : t.WellFormed) (hs : t.sites table ≠ []) (hb : t.hasBody = true)
    {rest : List Token} {body : Enclosed} (hbody : splitAtClose t.name 0 rest = some body) :
    plan table t.openToken rest = planSites t.opened (t.sited table) (some body) := by
  have hsites : (t.sited table).sites.isEmpty = false := by simpa using sites_sited_ne_nil hs
  rw [plan_openToken h hs]
  simp [planTag, of_opened h, hb, hsites, hbody]

theorem plan_container {t : PlainTag} (h : t.WellFormed) (hb : t.hasBody = true) {s : Site}
    (hs : t.container? table = some s) {rest : List Token} {body : Enclosed}
    (hbody : splitAtClose t.name 0 rest = some body) :
    plan table t.openToken rest = .container t.opened (t.sited table) s body := by
  have hsites : t.sites table ≠ [] := List.ne_nil_of_mem (List.mem_of_find?_eq_some hs)
  have hsited : (t.sited table).sites.isEmpty = false := by simpa using sites_sited_ne_nil hsites
  rw [plan_of_close h hsites hb hbody]
  simp [planSites, hsited, hs]

theorem plan_content {t : PlainTag} (h : t.WellFormed) (hb : t.hasBody = true) {s : Site}
    (hc : t.container? table = none) (hs : t.content? table = some s) {rest : List Token} {body : Enclosed}
    (hbody : splitAtClose t.name 0 rest = some body) :
    plan table t.openToken rest = .content t.opened (t.sited table) s.key body := by
  have hsites : t.sites table ≠ [] := List.ne_nil_of_mem (List.mem_of_find?_eq_some hs)
  have hsited : (t.sited table).sites.isEmpty = false := by simpa using sites_sited_ne_nil hsites
  rw [plan_of_close h hsites hb hbody]
  simp [planSites, hsited, hc, content?_sited hc, hs]

theorem plan_tag {t : PlainTag} (h : t.WellFormed) (hb : t.hasBody = true) (hsites : t.sites table ≠ [])
    (hc : t.container? table = none) (hs : t.content? table = none) {rest : List Token} {body : Enclosed}
    (hbody : splitAtClose t.name 0 rest = some body) :
    plan table t.openToken rest = .tag t.opened (t.sited table) := by
  have hsited : (t.sited table).sites.isEmpty = false := by simpa using sites_sited_ne_nil hsites
  rw [plan_of_close h hsites hb hbody]
  simp [planSites, hsited, hc, content?_sited hc, hs]

theorem plan_of_childless {t : PlainTag} (h : t.WellFormed) (hs : t.sites table ≠ []) (hb : t.hasBody = false)
    (rest : List Token) : plan table t.openToken rest = planSites t.opened (t.sited table) none := by
  rw [plan_openToken h hs]
  simp [planTag, of_opened h, hb]

theorem carriedOut_of_sites_nil {t : PlainTag} (h : t.sites table = []) (c : Context) : t.carriedOut table c = t := by
  have hsite : ∀ a ∈ t.attributes, site? table a = none := List.filterMap_eq_nil_iff.1 h
  have hafter : ∀ a ∈ t.attributes, t.attributeAfter table c a = [a] := by
    intro a ha
    simp [attributeAfter, hsite a ha, driven, h]
  have : t.attributes.flatMap (t.attributeAfter table c) = t.attributes := by
    rw [List.flatMap_def, List.map_congr_left hafter]
    simp [← List.flatMap_def]
  rw [carriedOut, this]

/-- What a tag becomes depends on a context only through what its directives write. -/
theorem carriedOut_congr {t : PlainTag} {c d : Context} (h : ∀ s ∈ t.sites table, s.writes d = s.writes c) :
    t.carriedOut table d = t.carriedOut table c := by
  have hafter : ∀ a ∈ t.attributes, t.attributeAfter table d a = t.attributeAfter table c a := by
    intro a ha
    unfold attributeAfter
    cases hs : (site? table a).filter (carries (t.container? table)) with
    | none => rfl
    | some s =>
      have hsite : site? table a = some s := (Option.filter_eq_some_iff.1 hs).1
      exact congrArg (· ++ _) (h s (List.mem_filterMap.2 ⟨a, ha, hsite⟩))
  rw [carriedOut, carriedOut, List.flatMap_def, List.flatMap_def, List.map_congr_left hafter]

end PlainTag

namespace Forest

/-! ## The walk over a forest -/

theorem concat_written_map (fs : List Context) (f : Context → Forest) :
    (concat (fs.map f)).written = fs.flatMap fun scope => (f scope).written := by
  rw [written_concat, List.flatMap_map]

@[simp] theorem hasBody_carriedOut (c : Context) (t : PlainTag) : (t.carriedOut table c).hasBody = t.hasBody := rfl

@[simp] theorem closeToken_carriedOut (c : Context) (t : PlainTag) :
    (t.carriedOut table c).closeToken = t.closeToken := rfl

theorem written_carriedOut {tag : PlainTag} (h : tag.hasBody = true) (c : Context) (children rest : Forest) :
    (element (tag.carriedOut table c) children rest).written =
      (tag.carriedOut table c).written ++ children.written ++ tag.closeToken.text ++ rest.written := by
  have hb : (tag.carriedOut table c).hasBody = true := h
  rw [written_element hb, closeToken_carriedOut]

theorem renderTokens_childless {tag : PlainTag} (h : tag.WellFormed) (hb : tag.hasBody = false) (c : Context)
    (rest : List Token) :
    renderTokens table c (tag.openToken :: rest) =
      ((element tag nil nil).evaluate table c).written ++ renderTokens table c rest := by
  have hafter : (tag.carriedOut table c).hasBody = false := hb
  cases hcont : tag.container? table with
  | some s =>
    have hs : tag.sites table ≠ [] := List.ne_nil_of_mem (List.mem_of_find?_eq_some hcont)
    have hsited : (tag.sited table).sites.isEmpty = false := by simpa using PlainTag.sites_sited_ne_nil hs
    have hp : planSites tag.opened (tag.sited table) none = .copy := by simp [planSites, hsited, hcont]
    have hfate : fate table c tag nil = .kept := fate_kept hcont (by simp [hb])
    rw [Render.renderTokens_copy ((PlainTag.plan_of_childless h hs hb rest).trans hp)]
    simp only [evaluate, hfate, written_childless hb]
    simp [PlainTag.openToken]
  | none =>
    have hfate : fate table c tag nil = .walked := fate_walked hcont (by simp [filling?, hb])
    simp only [evaluate, hfate, written_childless hafter]
    by_cases hs : tag.sites table = []
    · rw [Render.renderTokens_copy (PlainTag.plan_of_sites_nil h hs _), PlainTag.carriedOut_of_sites_nil hs]
      simp [PlainTag.openToken]
    · have hsited : (tag.sited table).sites.isEmpty = false := by simpa using PlainTag.sites_sited_ne_nil hs
      have hp : planSites tag.opened (tag.sited table) none = .tag tag.opened (tag.sited table) := by
        simp [planSites, hsited, hcont]
      rw [Render.renderTokens_tag ((PlainTag.plan_of_childless h hs hb rest).trans hp), PlainTag.editTag_opened h]
      simp

theorem splitAtClose_element {tag : PlainTag} {children : Forest} (h : tag.WellFormed) (hch : children.WellFormed)
    (after : List Token) : splitAtClose tag.name 0 (children.pieces ++ tag.closeToken :: after) =
      some ⟨children.pieces, tag.closeToken, after⟩ := by
  rw [splitAtClose_pieces hch, splitAtClose, closes_closeToken h, Text.sameName_refl]
  simp

/-- The walk at an element whose children it renders as evaluation does. -/
theorem renderTokens_element {tag : PlainTag} {children : Forest} (h : tag.WellFormed) (hch : children.WellFormed)
    (hb : tag.hasBody = true)
    (ih : ∀ (c : Context) (rest : List Token),
      renderTokens table c (children.pieces ++ rest) = (children.evaluate table c).written ++ renderTokens table c rest)
    (c : Context) (after : List Token) :
    renderTokens table c (tag.openToken :: (children.pieces ++ tag.closeToken :: after)) =
      ((element tag children .nil).evaluate table c).written ++ renderTokens table c after := by
  have hsplit := splitAtClose_element h hch after
  have hinner : ∀ d, renderTokens table d children.pieces = (children.evaluate table d).written := by
    intro d
    have hd := ih d []
    rwa [Render.renderTokens_nil, List.append_nil, List.append_nil] at hd
  -- where the children are walked as they stand
  have hwalked : renderTokens table c (children.pieces ++ tag.closeToken :: after) =
      (children.evaluate table c).written ++ (tag.closeToken.text ++ renderTokens table c after) := by
    have hcopy : plan table tag.closeToken after = .copy := Render.plan_of_kind (by simp [PlainTag.closeToken])
    rw [ih, Render.renderTokens_copy hcopy]
  cases hcont : tag.container? table with
  | some s =>
    rw [Render.renderTokens_container (PlainTag.plan_container h hb hcont hsplit)]
    cases hscopes : s.scopes? c with
    | none =>
      have hfate : fate table c tag children = .kept := fate_kept hcont fun _ => hscopes
      have hsource : Token.source children.pieces = children.written := rfl
      simp only [evaluate, hfate, written_element hb, hsource]
      simp [PlainTag.openToken]
    | some scopes =>
      have hfate : fate table c tag children = .expanded scopes := fate_expanded hcont hb hscopes
      simp only [evaluate, hfate, written_carriedOut hb, concat_written_map, hinner, PlainTag.editTag_opened h]
      simp
  | none =>
    cases hcontent : tag.content? table with
    | some s =>
      have hfilling : filling? table c tag children = (s.text? c).or children.placeholder? := by
        simp [filling?, hb, hcontent]
      have htext : (c.get? s.key).bind Value.asText? = s.text? c := rfl
      rw [Render.renderTokens_content (PlainTag.plan_content h hb hcont hcontent hsplit), PlainTag.editTag_opened h,
        htext, loneComment?_pieces, hinner]
      cases hfill : (s.text? c).or children.placeholder? with
      | none =>
        have hfate := fate_walked hcont (hfilling.trans hfill)
        simp only [evaluate, hfate, written_carriedOut hb]
        simp
      | some u =>
        have hfate := fate_filled hcont (hfilling.trans hfill)
        simp only [evaluate, hfate, written_carriedOut hb]
        simp
    | none =>
      have hfate : fate table c tag children = .walked := fate_walked hcont (by simp [filling?, hcontent])
      by_cases hs : tag.sites table = []
      · rw [Render.renderTokens_copy (PlainTag.plan_of_sites_nil h hs _), hwalked]
        simp only [evaluate, hfate, PlainTag.carriedOut_of_sites_nil hs, written_element hb]
        simp [PlainTag.openToken]
      · rw [Render.renderTokens_tag (PlainTag.plan_tag h hb hs hcont hcontent hsplit), hwalked,
          PlainTag.editTag_opened h]
        simp only [evaluate, hfate, written_carriedOut hb]
        simp

/-- **What the walk does at a forest,** whatever tokens stand behind it. -/
theorem renderTokens_pieces {f : Forest} (h : f.WellFormed) (c : Context) (rest : List Token) :
    renderTokens table c (f.pieces ++ rest) = (f.evaluate table c).written ++ renderTokens table c rest := by
  induction f generalizing c rest with
  | nil => rfl
  | text s f ih =>
    have hp : plan table ⟨.text, s⟩ (f.pieces ++ rest) = .copy := Render.plan_of_kind (by simp)
    rw [pieces, List.cons_append, Render.renderTokens_copy hp, ih h.2]
    simp [evaluate]
  | comment s f ih =>
    have hp : plan table ⟨.comment, "<!--" ++ s ++ "-->"⟩ (f.pieces ++ rest) = .copy := Render.plan_of_kind (by simp)
    rw [pieces, List.cons_append, Render.renderTokens_copy hp, ih h.2.2]
    simp [evaluate]
  | element tag children f ihc ihr =>
    obtain ⟨htag, hnil, hch, hf⟩ := h
    have hsplit : (element tag children f).evaluate table c =
        (element tag children .nil).evaluate table c ++ f.evaluate table c :=
      evaluate_append (element tag children .nil) f c
    rw [hsplit, written_append]
    cases hb : tag.hasBody with
    | false =>
      obtain rfl := hnil hb
      have hpieces : (element tag nil f).pieces ++ rest = tag.openToken :: (f.pieces ++ rest) := by
        simp [pieces, hb]
      rw [hpieces, renderTokens_childless htag hb, ihr hf]
      simp
    | true =>
      have hpieces : (element tag children f).pieces ++ rest =
          tag.openToken :: (children.pieces ++ tag.closeToken :: (f.pieces ++ rest)) := by
        simp [pieces, hb]
      rw [hpieces, renderTokens_element htag hch hb (ihc hch), ihr hf, List.append_assoc]

/-- **Rendering evaluates the tree:** the page is the evaluated forest, written. -/
theorem render_written {f : Forest} (h : f.WellFormed) (c : Context) :
    Render.renderWith table c f.written = (f.evaluate table c).written := by
  have hpieces : renderTokens table c (f.pieces ++ []) = (f.evaluate table c).written ++ renderTokens table c [] :=
    renderTokens_pieces h c []
  rw [Render.renderTokens_nil, List.append_nil, List.append_nil] at hpieces
  rw [Render.renderWith, tokens_written h, Render.renderTokens_join, hpieces]

end Forest

end MarkupLens
