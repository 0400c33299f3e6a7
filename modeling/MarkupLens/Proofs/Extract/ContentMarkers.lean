/-
What the marker of a tag's first content directive records. Where it has come
in the place of the directive, the body of the element was replaced, or the tag
has no body. On a template with that one directive and no markers, rendering
copies all of the page but the directive's element; where the directive is
carried out on a body, extraction reads back the text that was put there, and
nothing else (`content_markers`).

A tag that is void or closes itself has its directive replaced by the marker
although there is no body to put the text in (`content_marker_self_closed`).
Further content directives on one tag are not spoken of: they give way to their
markers as well, and only the first one's text is put in (`content_marker_second`).
-/
import MarkupLens.Proofs.Extract.SingleMark
import MarkupLens.Proofs.Render.ContentSites

namespace MarkupLens

open Text (allBlank trim)
open Extract (ofNode marks mark? Mark)
open Markup (splitAtClose attributesOf tokens tail)
open Render

variable {table : DirectiveTable} {c : Context}

/-! ## Templates with one directive -/

namespace Token

/-- No attribute of the token has the name of a marker, triggers that are read as one apart. -/
def Markerless (table : DirectiveTable) (t : Token) : Prop :=
  t.kind = .openTag → ∀ a ∈ (OpenTag.scan t.text).attributes,
    (table.byMarker? a.name).isSome = true → (table.byTrigger? a.name).isSome = true

instance (table : DirectiveTable) (t : Token) : Decidable (t.Markerless table) :=
  inferInstanceAs (Decidable (t.kind = .openTag → ∀ a ∈ (OpenTag.scan t.text).attributes,
    (table.byMarker? a.name).isSome = true → (table.byTrigger? a.name).isSome = true))

end Token

namespace Render

theorem exists_of_flatMap_eq_singleton {α β : Type} {f : α → List β} {l : List α} {b : β} (h : l.flatMap f = [b]) :
    ∃ before a after, l = before ++ a :: after ∧ f a = [b] ∧ (∀ x ∈ before, f x = []) ∧ ∀ x ∈ after, f x = [] := by
  induction l with
  | nil => cases h
  | cons a l ih =>
    rw [List.flatMap_cons] at h
    cases ha : f a with
    | nil =>
      rw [ha, List.nil_append] at h
      obtain ⟨before, a', after, rfl, h1, h2, h3⟩ := ih h
      exact ⟨a :: before, a', after, rfl, h1, List.forall_mem_cons.2 ⟨ha, h2⟩, h3⟩
    | cons x xs =>
      rw [ha, List.cons_append, List.cons.injEq, List.append_eq_nil_iff] at h
      obtain ⟨rfl, rfl, hnil⟩ := h
      exact ⟨[], a, l, rfl, ha, by simp, List.flatMap_eq_nil_iff.1 hnil⟩

end Render

/-! ## The element with the directive -/

namespace DirectiveKind

theorem isMarkedBy_content_trigger (k : DirectiveKind) : k.isMarkedBy DirectiveKind.content.trigger = false := by
  cases k <;> decide

end DirectiveKind

/-- The directive that puts a text in the place of an element's content. -/
def contentSite (key : Text) : Site := ⟨.content, key⟩

variable {t : Token} {key : Text}

/-- Where a token holds no directives but content and no markers, none of its attributes is read as a marker. -/
theorem Token.mark?_eq_none (hm : t.Markerless table) (hk : t.kind = .openTag)
    (hd : ∀ s ∈ t.directives table, s.kind = .content) {a : Attribute} (ha : a ∈ (OpenTag.scan t.text).attributes) :
    mark? table a.name a.value = none := by
  unfold mark?
  split
  · rename_i kind key hkind hvalue
    split
    · rename_i hword
      -- what has the name of a marker is a directive, so it is content, whose name marks nothing
      obtain ⟨kind', hkind'⟩ := Option.isSome_iff_exists.1 (hm hk a ha (by rw [hkind]; rfl))
      have hsite : Site.of? table a = some ⟨kind', key⟩ := by
        simp only [Site.of?, hkind', hvalue, hword, if_true]
      have hcontent : kind' = .content := by
        refine hd ⟨kind', key⟩ ?_
        rw [directives, if_pos hk]
        exact List.mem_filterMap.2 ⟨a, ha, hsite⟩
      have hname : a.name = DirectiveKind.content.trigger := by
        rw [(Site.of?_eq_some.1 hsite).2.1, hcontent]
      have hmarked : kind.isMarkedBy a.name = true := by
        have hfind : table.find? (·.isMarkedBy a.name) = some kind := hkind
        simpa using List.find?_some hfind
      rw [hname, DirectiveKind.isMarkedBy_content_trigger] at hmarked
      cases hmarked
    · rfl
  · rfl

theorem Token.unmarked (hm : t.Markerless table) (hd : ∀ s ∈ t.directives table, s.kind = .content) :
    Markup.Builder.Unmarked table t := by
  intro hk
  refine List.filterMap_eq_nil_iff.2 fun p hp => ?_
  obtain ⟨a, ha, hpair⟩ := List.mem_map.1 (Keyed.mem_of_lookup (Markup.mem_attributesOf.1 hp))
  have hnone := Token.mark?_eq_none hm hk hd ha
  rw [Prod.mk.injEq] at hpair
  rwa [hpair.1, hpair.2] at hnone

/-- The record that a page gives where one key is bound to a text. -/
def Context.single (key v : Text) : Context := Context.empty.insert key (.text v)

/-- An element whose marks are all that of content, with a trimmed text in it, gives that text. -/
theorem Extract.ofNode_content {attributes : Attributes} {name v : Text} (hv : trim v = v)
    (hall : ∀ m ∈ marks table attributes, m = ⟨.content, key⟩) (hmem : ⟨.content, key⟩ ∈ marks table attributes) :
    ofNode table (.element name attributes [.text v]) = Context.single key v := by
  have hnone : Extract.container? (marks table attributes) = none :=
    List.find?_eq_none.2 fun m hm => by simp [hall m hm, Binding.isContainer]
  have hcanonical : (Context.single key v).Canonical := Context.canonical_empty.insert _ _
  rw [ofNode]
  simp only [hnone, Extract.mergeInto_text]
  rw [Extract.mergeInto]
  have hshows := Extract.shows_ownRecord (c := Context.single key v) (marks table attributes) attributes [.text v] ?_
  · refine hshows.eq hcanonical fun k hk => ?_
    obtain rfl : k = key := by
      simpa [Context.single, Context.keys, Context.empty, Context.insert, Context.entries, Keyed.keys, Keyed.insert] using hk
    exact List.mem_map.2 ⟨⟨.content, k⟩, Extract.mem_ordered.2 ⟨hmem, rfl⟩, rfl⟩
  · intro m hm _
    rw [hall m hm, Context.single, Context.get?_insert_self]
    simp [Mark.value, Node.contents, Node.content, hv]

/-! ## The tag of the directive, edited -/

section edited

variable {source : Text} {rest : List Token} {tag : OpenTag} {attributes : SitedAttributes}
  (hplan : (plan table t rest).edited? = some (tag, attributes)) (hd : t.directives table = [contentSite key])

include hplan hd

theorem site_eq {s : Site} (hs : s ∈ attributes.sites) : s = contentSite key := by
  have hmem := mem_directives hplan hs
  rwa [hd, List.mem_singleton] at hmem

theorem written_eq_nil : written attributes.sites = [] :=
  List.filterMap_eq_nil_iff.2 fun s hs => by
    rw [site_eq hplan hd hs]
    rfl

theorem contentSite_mem : contentSite key ∈ attributes.sites := by
  obtain ⟨s, hs⟩ := List.exists_mem_of_ne_nil _ (edited?_plan hplan).2.2.2
  exact site_eq hplan hd hs ▸ hs

theorem content?_eq : attributes.content? = some (contentSite key) := by
  cases hf : attributes.content? with
  | some s => rw [site_eq hplan hd (List.mem_of_find?_eq_some hf)]
  | none => exact absurd rfl (List.find?_eq_none.1 hf _ (contentSite_mem hplan hd))

/-- The attributes of the edited tag are those of the tag, and the marker in place of the directive. -/
theorem mem_carriedOut_content (c : Context) {b : Text × Option Text} (hb : b ∈ attributes.carriedOut c) :
    b = (DirectiveKind.content.marker, some key) ∨ ∃ a ∈ tag.attributes, b = (a.name, a.value) := by
  obtain ⟨-, -, rfl, -⟩ := edited?_plan hplan
  obtain ⟨⟨a, site⟩, hp, hb⟩ := List.mem_flatMap.1 hb
  cases site with
  | some s =>
    obtain rfl := site_eq hplan hd (SitedAttributes.mem_sites.2 ⟨a, hp⟩)
    exact .inl (List.mem_singleton.1 hb)
  | none =>
    have ha : a ∈ tag.attributes := by
      rw [← map_fst_sitesOf table tag rest]
      exact List.mem_map_of_mem (f := Prod.fst) hp
    rw [written_eq_nil hplan hd] at hb
    exact .inr ⟨a, ha, List.mem_singleton.1 hb⟩

theorem mem_table : DirectiveKind.content ∈ table ∧ Text.isWord key = true := by
  obtain ⟨a, ha⟩ := SitedAttributes.mem_sites.1 (contentSite_mem hplan hd)
  have hsound : attributes.Sound table := (edited?_plan hplan).2.2.1 ▸ sound_sitesOf table tag rest
  obtain ⟨htable, -, -, hword⟩ := Site.of?_eq_some.1 (hsound _ ha _ rfl)
  exact ⟨htable, hword⟩

/-- No attribute of the template has the name of the marker, so the one that is put in is found under it. -/
theorem lookup_marker (hm : t.Markerless table) (c : Context) :
    Keyed.lookup DirectiveKind.content.marker (attributes.carriedOut c) = some (some key) := by
  obtain ⟨hk, htag, -, -⟩ := edited?_plan hplan
  have hfresh : ∀ a ∈ tag.attributes, a.name ≠ DirectiveKind.content.marker := by
    intro a ha hn
    have hmarker := DirectiveTable.byMarker?_marker (mem_table hplan hd).1
    obtain ⟨k, hkind⟩ := Option.isSome_iff_exists.1 (hm hk a (htag ▸ ha) (by rw [hn, hmarker]; rfl))
    exact DirectiveKind.marker_ne_trigger _ k (hn.symm.trans (DirectiveTable.byTrigger?_eq_some.1 hkind).2.symm)
  have hmem : (DirectiveKind.content.marker, some key) ∈ attributes.carriedOut c :=
    SitedAttributes.marker_mem_carriedOut (contentSite_mem hplan hd) c
  cases hl : Keyed.lookup DirectiveKind.content.marker (attributes.carriedOut c) with
  | none =>
    rw [Keyed.lookup_eq_none_iff] at hl
    exact absurd (List.mem_map_of_mem (f := Prod.fst) hmem) hl
  | some v =>
    rcases mem_carriedOut_content hplan hd c (Keyed.mem_of_lookup hl) with he | ⟨a, ha, he⟩
    · exact congrArg some (Prod.mk.inj he).2
    · exact absurd (Prod.mk.inj he).1.symm (hfresh a ha)

/-- **The edited tag** is one open tag, with a body if it had one, and the marker of the directive is the only mark on
it. -/
theorem marks_editTag (ht : t ∈ tokens source) (hm : t.Markerless table) (c : Context) :
    ∃ u, editTag c tag attributes = '<' :: (u ++ ['>']) ∧ Markup.IsInside .openTag u ∧
      (OpenTag.scan (editTag c tag attributes)).hasBody = tag.hasBody ∧
      (∀ m ∈ marks table (attributesOf (OpenTag.scan (editTag c tag attributes))), m = ⟨.content, key⟩) ∧
      ⟨.content, key⟩ ∈ marks table (attributesOf (OpenTag.scan (editTag c tag attributes))) := by
  obtain ⟨hk, htag, -, -⟩ := edited?_plan hplan
  obtain ⟨htable, hword⟩ := mem_table hplan hd
  have hfits : ∀ s ∈ attributes.sites, FitsTag c s := by
    intro s hs b hb
    obtain rfl := site_eq hplan hd hs
    obtain rfl : b = (DirectiveKind.content.marker, some key) := List.mem_singleton.1 hb
    refine ⟨PlainTag.isName_marker _, fun v hv => ?_⟩
    cases hv
    exact ⟨PlainTag.not_mem_of_isWord hword (by decide), PlainTag.not_mem_of_isWord hword (by decide)⟩
  obtain ⟨u, htext, hu, hscan⟩ :=
    scan_editTag ht hplan hfits (detaches_of_nothing_written hplan (written_eq_nil hplan hd))
  have hpairs : (OpenTag.scan (editTag c tag attributes)).attributes.map (fun a => (a.name, a.value)) =
      attributes.carriedOut c := by
    rw [hscan]
    exact SitedAttributes.map_edited c attributes
  have hmark : mark? table DirectiveKind.content.marker (some key) = some ⟨.content, key⟩ :=
    PlainTag.mark?_marker (s := contentSite key) htable hword
  refine ⟨u, htext, hu, by rw [hscan]; rfl, fun m hmem => ?_, ?_⟩
  · obtain ⟨b, hb, hbm⟩ := List.mem_filterMap.1 hmem
    rw [Markup.mem_attributesOf, hpairs] at hb
    rcases mem_carriedOut_content hplan hd c (Keyed.mem_of_lookup hb) with he | ⟨a, ha, he⟩
    · rw [Prod.mk.injEq] at he
      rw [he.1, he.2, hmark, Option.some.injEq] at hbm
      exact hbm.symm
    · have hnone := Token.mark?_eq_none hm hk (by simp [hd, contentSite]) (htag ▸ ha)
      rw [Prod.mk.injEq] at he
      rw [he.1, he.2, hnone] at hbm
      cases hbm
  · refine List.mem_filterMap.2 ⟨(DirectiveKind.content.marker, some key), ?_, hmark⟩
    rw [Markup.mem_attributesOf, hpairs]
    exact lookup_marker hplan hd hm c

end edited

/-! ## The page -/

theorem kind_close {name : Text} {depth : Nat} {rest : List Token} {body : Enclosed}
    (h : splitAtClose name depth rest = some body) : body.close.kind = .closeTag := by
  have hcloses := Markup.splitAtClose_close h
  simp only [Markup.closes, Bool.and_eq_true, beq_iff_eq] at hcloses
  exact hcloses.1

/-- The tokens of the page on which a content directive has been carried out. -/
theorem tokens_of_content {source : Text} {before rest : List Token} {body : Enclosed} {u v : Text}
    (hsource : tokens source = before ++ t :: rest) (hk : t.kind = .openTag) (hu : Markup.IsInside .openTag u)
    {name : Text} (hclose : splitAtClose name 0 rest = some body) (hv : '<' ∉ v) (hne : v ≠ []) :
    tokens (Token.source before ++ ('<' :: (u ++ ['>']) ++ (v ++ (body.close.text ++ Token.source body.after)))) =
      before ++ ⟨.openTag, '<' :: (u ++ ['>'])⟩ :: ⟨.text, v⟩ :: body.close :: body.after := by
  have hrest := Markup.splitAtClose_eq hclose
  have hclosing := kind_close hclose
  have hmem : t ∈ tokens source := by simp [hsource]
  have hhead : t.text.head? = some '<' := by
    obtain ⟨w, hw, -⟩ := Markup.isInside_of_mem hmem (.inl hk)
    rw [hw]
    rfl
  -- from the back: what follows the close tag, the close tag, the text, the open tag, what stands in front
  have hafter : tokens (Token.source body.after) = body.after := by
    have hparts : tokens source = (before ++ t :: (body.inner ++ [body.close])) ++ body.after ++ [] := by
      rw [hsource, hrest]
      simp
    exact Markup.tokens_source_between hparts
  have hclosetokens : tokens (body.close.text ++ Token.source body.after) = body.close :: body.after := by
    have hwhole := Markup.whole_of_mem (s := source) (t := body.close) (by simp [hsource, hrest]) (.inr hclosing)
    rw [Token.Whole, if_neg (by rw [hclosing]; exact TokenKind.noConfusion)] at hwhole
    rw [Markup.tokens_of_next? (hwhole _), hafter]
  have htext : tokens (v ++ (body.close.text ++ Token.source body.after)) = ⟨.text, v⟩ :: body.close :: body.after := by
    rw [Markup.tokens_append_text hv, hclosetokens]
    simp [Token.glue, hclosing, hne]
  rw [List.cons_append, Markup.tokens_source_append hsource hhead, ← List.cons_append,
    Markup.tokens_of_next? (Markup.next?_tag hu _), htext]

/-- **A single content directive** that is bound to a text: the template is copied up to its tail, or the tag has no
body and is all that is rewritten, or the page gives the text back. -/
theorem extract_content {template : Text}
    (hone : (tokens template).flatMap (Token.directives table) = [contentSite key])
    (hm : ∀ t ∈ tokens template, t.Markerless table) {v : Text} (hv : c.get? key = some (.text v)) (hne : v ≠ [])
    (htrim : trim v = v) (hangle : '<' ∉ v) :
    renderWith table c template ++ tail template = template ∨
      (∃ before t after attributes, tokens template = before ++ t :: after ∧ t.directives table = [contentSite key] ∧
        (OpenTag.scan t.text).hasBody = false ∧ renderWith table c template =
          Token.source before ++ editTag c (OpenTag.scan t.text) attributes ++ Token.source after) ∨
      Extract.extractWith table (renderWith table c template) = Context.single key v := by
  obtain ⟨before, t, rest, htokens, hd, hbefore, hafter⟩ := exists_of_flatMap_eq_singleton hone
  have hcopied : ∀ us : List Token, (∀ u ∈ us, u.directives table = []) → renderTokens table c us = Token.source us := by
    intro us hus
    have h := renderTokens_of_no_directives (c := c) hus []
    rwa [List.append_nil, renderTokens_nil, List.append_nil] at h
  have hpage : renderWith table c template = Token.source before ++ renderTokens table c (t :: rest) := by
    rw [renderWith, htokens, renderTokens_of_no_directives hbefore]
  cases hplan : (plan table t rest).edited? with
  | none =>
    have hcopy : renderWith table c template = Token.source (tokens template) := by
      rw [hpage, renderTokens_copy (edited?_eq_none.1 hplan), hcopied rest hafter, htokens, Token.source_append,
        Token.source_cons]
    exact .inl (by rw [hcopy, Markup.source_tokens_append_tail])
  | some edited =>
    obtain ⟨tag, attributes⟩ := edited
    obtain ⟨hk, htag, -, -⟩ := edited?_plan hplan
    rcases renderTokens_content_site hplan (content?_eq hplan hd) c with ⟨hb, hrender⟩ | ⟨body, hb, hclose, hrender⟩
    · refine .inr (.inl ⟨before, t, rest, attributes, htokens, hd, htag ▸ hb, ?_⟩)
      rw [hpage, hrender, hcopied rest hafter, htag, List.append_assoc]
    · refine .inr (.inr ?_)
      have hrest := Markup.splitAtClose_eq hclose
      have hmem : t ∈ tokens template := by simp [htokens]
      have hunmarked : ∀ u ∈ tokens template, u.directives table = [] → Markup.Builder.Unmarked table u :=
        fun u hu hnone => Token.unmarked (hm u hu) (by simp [hnone])
      have hafter' : ∀ u ∈ body.after, u.directives table = [] := fun u hu => hafter u (by simp [hrest, hu])
      obtain ⟨u, htext, hu, hbody, hall, hmark⟩ := marks_editTag hplan hd hmem (hm t hmem) c
      have hshown : bodyShown table c (contentSite key) body = v := by
        have htext : (contentSite key).text? c = some v := by
          rw [Site.text?, contentSite, hv]
          rfl
        simp [bodyShown, htext]
      have hblank : allBlank v = false := by
        cases hb : allBlank v with
        | false => rfl
        | true => exact absurd (htrim.symm.trans (Text.trim_of_allBlank hb)) hne
      have hclosing := kind_close hclose
      have hresult : tokens (renderWith table c template) =
          before ++ ⟨.openTag, editTag c tag attributes⟩ :: ⟨.text, v⟩ :: body.close :: body.after := by
        rw [hpage, hrender, hshown, hcopied _ hafter', htext]
        have hcut := tokens_of_content htokens hk hu hclose hangle hne
        simpa using hcut
      rw [extract_single hresult rfl (hbody.trans hb) hclosing hblank]
      · exact Extract.ofNode_content htrim hall hmark
      · exact fun w hw => hunmarked w (by simp [htokens, hw]) (hbefore w hw)
      · exact fun w hw => hunmarked w (by simp [htokens, hrest, hw]) (hafter' w hw)

/-- **What a content marker records.** Wherever rendering comes to a tag whose first content directive gives way to its
marker, the tag has no body, or a close tag bounds it and what is written up to there is the text bound, or else the
lone comment or the body rendered; where no close tag bounds the body, every content directive stays as written. And a
page made from a single content directive that is bound to a text is the template up to its tail, or has no body there,
or gives the text back. -/
theorem content_markers (table : DirectiveTable) (c : Context) (template : Text) :
    (∀ d t rest, Reaches table c (tokens template) d (t :: rest) →
      renderTokens table d (t :: rest) <:+: renderWith table c template ∧
      (∀ tag attributes, (plan table t rest).edited? = some (tag, attributes) → ∀ s, attributes.content? = some s →
        (tag.hasBody = false ∧
          renderTokens table d (t :: rest) = editTag d tag attributes ++ renderTokens table d rest) ∨
        ∃ body, tag.hasBody = true ∧ splitAtClose tag.name 0 rest = some body ∧
          renderTokens table d (t :: rest) = editTag d tag attributes ++
            ((s.text? d).or (loneComment? none body.inner)).getD (renderTokens table d body.inner) ++ body.close.text ++
            renderTokens table d body.after) ∧
      ((OpenTag.scan t.text).hasBody = true → splitAtClose (OpenTag.scan t.text).name 0 rest = none →
        ∀ a ∈ (OpenTag.scan t.text).attributes, ∀ s, Site.of? table a = some s → s.isContent = true →
          ∃ out, renderTokens table d (t :: rest) = out ++ renderTokens table d rest ∧ a.written <:+: out)) ∧
    (∀ key v, (tokens template).flatMap (Token.directives table) = [contentSite key] →
      (∀ t ∈ tokens template, t.Markerless table) → c.get? key = some (.text v) → v ≠ [] → trim v = v → '<' ∉ v →
      renderWith table c template ++ tail template = template ∨
        (∃ before t after attributes, tokens template = before ++ t :: after ∧ t.directives table = [contentSite key] ∧
          (OpenTag.scan t.text).hasBody = false ∧ renderWith table c template =
            Token.source before ++ editTag c (OpenTag.scan t.text) attributes ++ Token.source after) ∨
        Extract.extractWith table (renderWith table c template) = Context.single key v) := by
  refine ⟨fun d t rest hreach => ⟨hreach.rendered, ?_, ?_⟩, ?_⟩
  · exact fun tag attributes hplan s hs => renderTokens_content_site hplan hs d
  · exact fun hb hopen a ha s hs hcontent => renderTokens_unbounded hb hopen ha hs hcontent d
  · exact fun key v hone hm hv hne htrim hangle => extract_content hone hm hv hne htrim hangle

/-- A list with one item that shows a text. -/
def itemList : Text := "<ul class=x><li data-nyanString=\"k\"><b>old</b></li></ul>"

theorem content_markers_itemList :
    ((tokens itemList).flatMap (Token.directives .standard) = [contentSite "k"] ∧
      (∀ t ∈ tokens itemList, t.Markerless .standard)) ∧
    (∃ t rest, Reaches .standard (.ofList [("k", .text "new")]) (tokens itemList) (.ofList [("k", .text "new")]) (t :: rest) ∧
      t.directives .standard = [contentSite "k"] ∧
      renderTokens .standard (.ofList [("k", .text "new")]) (t :: rest) <:+:
        renderWith .standard (.ofList [("k", .text "new")]) itemList) ∧
    Extract.extractWith .standard (renderWith .standard (.ofList [("k", .text "new")]) itemList) =
      Context.single "k" "new" := by
  have hone : (tokens itemList).flatMap (Token.directives .standard) = [contentSite "k"] := by decide +kernel
  have hm : ∀ t ∈ tokens itemList, t.Markerless .standard := by decide +kernel
  have hbody : ∀ t ∈ tokens itemList, (OpenTag.scan t.text).hasBody = true := by decide +kernel
  have hchanged : renderWith .standard (.ofList [("k", .text "new")]) itemList ++ tail itemList ≠ itemList := by
    decide +kernel
  refine ⟨⟨hone, hm⟩, ?_, ?_⟩
  · have htokens : tokens itemList = ⟨.openTag, "<ul class=x>"⟩ :: (tokens itemList).tail := by decide +kernel
    have hrest : (tokens itemList).tail = ⟨.openTag, "<li data-nyanString=\"k\">"⟩ :: (tokens itemList).tail.tail := by
      decide +kernel
    have hcopy : plan .standard ⟨.openTag, "<ul class=x>"⟩ (tokens itemList).tail = .copy :=
      edited?_eq_none.1 (by decide +kernel)
    have hreach : Reaches .standard (.ofList [("k", .text "new")]) (tokens itemList) (.ofList [("k", .text "new")])
        (⟨.openTag, "<li data-nyanString=\"k\">"⟩ :: (tokens itemList).tail.tail) := by
      rw [htokens]
      exact .copy hcopy (hrest ▸ .here _ _)
    exact ⟨_, _, hreach, by decide +kernel, ((content_markers _ _ _).1 _ _ _ hreach).1⟩
  · rcases (content_markers .standard (.ofList [("k", .text "new")]) itemList).2 "k" "new" hone hm (by decide +kernel)
      (by decide) (by decide) (by decide) with h | ⟨before, t, after, -, ht, -, hb, -⟩ | h
    · exact absurd h hchanged
    · have hmem : t ∈ tokens itemList := by simp [ht]
      rw [hbody t hmem] at hb
      cases hb
    · exact h

/-- On a tag that closes itself the marker is written and the text is not. -/
theorem content_marker_self_closed :
    (tokens "<span data-nyanString=\"x\"/>").flatMap (Token.directives .standard) = [contentSite "x"] ∧
      renderWith .standard (.ofList [("x", .text "y")]) "<span data-nyanString=\"x\"/>" =
        "<span data-nyanDoneString=\"x\"/>".toList ∧
      Extract.extractWith .standard "<span data-nyanDoneString=\"x\"/>" = Context.single "x" "" := by
  decide +kernel

/-- A tag with two content directives. -/
def twoContents : Text := "<p data-nyanString=\"a\" data-nyanString=\"b\">x</p>"

/-- The marker of the second one is written although its text is not put in, be the first one bound or not. -/
theorem content_marker_second :
    renderWith .standard (.ofList [("a", .text "A"), ("b", .text "B")]) twoContents =
        "<p data-nyanDoneString=\"a\" data-nyanDoneString=\"b\">A</p>".toList ∧
      renderWith .standard (.ofList [("b", .text "B")]) twoContents =
        "<p data-nyanDoneString=\"a\" data-nyanDoneString=\"b\">x</p>".toList := by
  decide +kernel

end MarkupLens
