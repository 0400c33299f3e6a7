/-
What a plan for a token says, for markup of any style. A plan that edits a
tag (`Plan.edited?`) has that tag scanned and each of its attributes beside
the site that it is, if it is one (`edited?_plan`), so a token without
directives is copied (`plan_of_no_directives`); content is among the sites of
an edited tag only if a close tag bounds it or the tag has no body
(`content_cases`).
-/
import MarkupLens.Proofs.Markup.Scanning
import MarkupLens.Proofs.Render.Walk

namespace MarkupLens

open Markup (splitAtClose)

variable {table : DirectiveTable}

/-! ## Sites -/

namespace SitedAttributes

/-- Each attribute stands beside the site that it is on its own, if beside any. -/
def Sound (table : DirectiveTable) (attributes : SitedAttributes) : Prop :=
  ∀ p ∈ attributes, ∀ s ∈ p.2, Site.of? table p.1 = some s

theorem map_fst_claim (taken : Bool) (l : List Attribute) : (Site.claim table taken l).map (·.1) = l := by
  induction l generalizing taken with
  | nil => rfl
  | cons a l ih =>
    simp only [Site.claim]
    split
    · simp [ih]
    · split <;> simp [ih]

theorem sound_claim (taken : Bool) (l : List Attribute) : Sound table (Site.claim table taken l) := by
  induction l generalizing taken with
  | nil => simp [Sound, Site.claim]
  | cons a l ih =>
    simp only [Site.claim]
    split
    · exact List.forall_mem_cons.2 ⟨by simp, ih taken⟩
    · rename_i s hs
      split
      · refine List.forall_mem_cons.2 ⟨?_, ih true⟩
        cases taken <;> simp [hs]
      · exact List.forall_mem_cons.2 ⟨by simp [hs], ih taken⟩

theorem map_fst_release (given : Site → Bool) (attributes : SitedAttributes) :
    (attributes.release given).map (·.1) = attributes.map (·.1) := by
  simp [release, Function.comp_def]

theorem Sound.release {attributes : SitedAttributes} (h : attributes.Sound table) (given : Site → Bool) :
    (attributes.release given).Sound table := by
  intro p hp s hs
  obtain ⟨q, hq, rfl⟩ := List.mem_map.1 hp
  exact h q hq s (Option.filter_eq_some_iff.1 hs).1

theorem map_fst_of (tag : OpenTag) : (of table tag).map (·.1) = tag.attributes := by
  unfold of
  dsimp only
  split
  · rw [map_fst_release, map_fst_claim]
  · exact map_fst_claim false _

theorem sound_of (tag : OpenTag) : (of table tag).Sound table := by
  unfold of
  dsimp only
  split
  · exact (sound_claim false _).release _
  · exact sound_claim false _

theorem mem_sites {attributes : SitedAttributes} {s : Site} : s ∈ attributes.sites ↔ ∃ a, (a, some s) ∈ attributes := by
  simp [sites]

theorem sites_release (given : Site → Bool) (attributes : SitedAttributes) :
    (attributes.release given).sites = attributes.sites.filter fun s => !given s := by
  induction attributes with
  | nil => rfl
  | cons p attributes ih =>
    obtain ⟨a, s⟩ := p
    simp only [sites, release, List.map_cons, List.filterMap_cons] at ih ⊢
    cases s with
    | none => exact ih
    | some s => cases hg : given s <;> simp [Option.filter_some, hg, ih]

/-- Content that is a site shares the tag with no container. -/
theorem container?_of_content {tag : OpenTag} {s : Site} (h : s ∈ (of table tag).sites) (hs : s.isContent = true) :
    (of table tag).container? = none := by
  unfold of at h ⊢
  dsimp only at h ⊢
  split
  · rename_i hc
    rw [if_pos hc] at h
    rw [sites_release, List.mem_filter, hs] at h
    exact absurd h.2 Bool.false_ne_true
  · rename_i hc
    simpa using hc

end SitedAttributes

namespace Token

/-- The directives on an open tag, one by one. -/
def directives (table : DirectiveTable) (t : Token) : List Site :=
  if t.kind = .openTag then (OpenTag.scan t.text).attributes.filterMap (Site.of? table) else []

/-- A token with a directive holds what every trigger starts with. -/
theorem holds_triggerStem {t : Token} {s : Site} (h : s ∈ t.directives table) :
    Text.holds DirectiveKind.triggerStem t.text = true := by
  unfold directives at h
  split at h
  · obtain ⟨a, ha, hs⟩ := List.mem_filterMap.1 h
    have hname : a.name = s.kind.trigger := (Site.of?_eq_some.1 hs).2.1
    have hstem : DirectiveKind.triggerStem <:+: a.written := by
      rw [Attribute.written, hname, DirectiveKind.trigger, List.append_assoc]
      exact (List.prefix_append _ _).isInfix
    exact Text.holds_iff.2 (hstem.trans (OpenTag.infix_of_mem ha))
  · cases h

end Token

namespace Render

/-! ## Plans -/

/-- The tag that a plan edits, and its attributes with their sites. -/
def Plan.edited? : Plan → Option (OpenTag × SitedAttributes)
  | .copy => none
  | .tag opened attributes => some (opened, attributes)
  | .content opened attributes _ _ => some (opened, attributes)
  | .container opened attributes _ _ => some (opened, attributes)

theorem edited?_eq_none {p : Plan} : p.edited? = none ↔ p = .copy := by
  cases p <;> simp [Plan.edited?]

/-- What bounds the body of a tag that has one. -/
def bodyOf? (tag : OpenTag) (rest : List Token) : Option Enclosed :=
  if tag.hasBody then splitAtClose tag.name 0 rest else none

/-- The sites of a tag; content is given up where the tag has a body that no close tag bounds. -/
def sitesOf (table : DirectiveTable) (tag : OpenTag) (rest : List Token) : SitedAttributes :=
  if tag.hasBody && (bodyOf? tag rest).isNone then (SitedAttributes.of table tag).release Site.isContent
  else SitedAttributes.of table tag

variable {t : Token} {rest : List Token} {tag : OpenTag} {attributes : SitedAttributes}

theorem planSites_of_no_sites (h : attributes.sites = []) (body : Option Enclosed) :
    planSites tag attributes body = .copy := by simp [planSites, h]

/-- **The plan for a tag** is the one for its sites. -/
theorem planTag_eq (table : DirectiveTable) (tag : OpenTag) (rest : List Token) :
    planTag table tag rest = planSites tag (sitesOf table tag rest) (bodyOf? tag rest) := by
  cases hb : tag.hasBody with
  | false => simp [planTag, sitesOf, bodyOf?, hb]
  | true =>
    by_cases hs : (SitedAttributes.of table tag).sites = []
    · have hrelease : ((SitedAttributes.of table tag).release Site.isContent).sites = [] := by
        rw [SitedAttributes.sites_release, hs, List.filter_nil]
      have hnone : (sitesOf table tag rest).sites = [] := by
        unfold sitesOf
        split
        · exact hrelease
        · exact hs
      rw [planSites_of_no_sites hnone]
      simp [planTag, hb, hs, planSites_of_no_sites hrelease]
    · simp [planTag, sitesOf, bodyOf?, hb, hs]

theorem map_fst_sitesOf (table : DirectiveTable) (tag : OpenTag) (rest : List Token) :
    (sitesOf table tag rest).map (·.1) = tag.attributes := by
  unfold sitesOf
  split
  · rw [SitedAttributes.map_fst_release, SitedAttributes.map_fst_of]
  · exact SitedAttributes.map_fst_of tag

theorem sound_sitesOf (table : DirectiveTable) (tag : OpenTag) (rest : List Token) :
    (sitesOf table tag rest).Sound table := by
  unfold sitesOf
  split
  · exact (SitedAttributes.sound_of tag).release _
  · exact SitedAttributes.sound_of tag

/-- **What an edited tag is:** the token scanned, and its sites. -/
theorem edited?_plan (h : (plan table t rest).edited? = some (tag, attributes)) :
    t.kind = .openTag ∧ tag = OpenTag.scan t.text ∧ attributes = sitesOf table tag rest ∧ attributes.sites ≠ [] := by
  unfold plan at h
  split at h
  · rename_i hk
    rw [planTag_eq] at h
    unfold planSites at h
    split at h
    · cases h
    · rename_i hs
      have hs' : (sitesOf table (OpenTag.scan t.text) rest).sites ≠ [] := by simpa using hs
      repeat' split at h
      all_goals
        simp only [Plan.edited?, Option.some.injEq, Prod.mk.injEq, reduceCtorEq] at h
      all_goals
        obtain ⟨rfl, rfl⟩ := h
        exact ⟨hk.1, rfl, rfl, hs'⟩
  · cases h

theorem plan_of_edited? (h : (plan table t rest).edited? = some (tag, attributes)) :
    plan table t rest = planSites tag attributes (bodyOf? tag rest) := by
  obtain ⟨-, rfl, rfl, -⟩ := edited?_plan h
  rw [← planTag_eq]
  unfold plan at h ⊢
  split at h
  · rename_i hk
    rw [if_pos hk]
  · cases h

/-- The sites of an open tag are among its directives. -/
theorem mem_directives_of_mem_sitesOf (hk : t.kind = .openTag) {s : Site}
    (hs : s ∈ (sitesOf table (OpenTag.scan t.text) rest).sites) : s ∈ t.directives table := by
  obtain ⟨a, ha⟩ := SitedAttributes.mem_sites.1 hs
  have hmem : a ∈ (OpenTag.scan t.text).attributes := by
    rw [← map_fst_sitesOf table (OpenTag.scan t.text) rest]
    exact List.mem_map_of_mem (f := Prod.fst) ha
  rw [Token.directives, if_pos hk]
  exact List.mem_filterMap.2 ⟨a, hmem, sound_sitesOf _ _ _ _ ha s rfl⟩

theorem mem_directives (h : (plan table t rest).edited? = some (tag, attributes)) {s : Site}
    (hs : s ∈ attributes.sites) : s ∈ t.directives table := by
  obtain ⟨hk, rfl, rfl, -⟩ := edited?_plan h
  exact mem_directives_of_mem_sitesOf hk hs

/-- A token without directives is copied. -/
theorem plan_of_no_directives (h : t.directives table = []) (rest : List Token) : plan table t rest = .copy := by
  refine edited?_eq_none.1 ?_
  cases he : (plan table t rest).edited? with
  | none => rfl
  | some edited =>
    obtain ⟨tag, attributes⟩ := edited
    obtain ⟨s, hs⟩ := List.exists_mem_of_ne_nil _ (edited?_plan he).2.2.2
    have hmem := mem_directives he hs
    rw [h] at hmem
    cases hmem

theorem renderTokens_of_no_directives {c : Context} {ts : List Token} (h : ∀ t ∈ ts, t.directives table = [])
    (us : List Token) : renderTokens table c (ts ++ us) = Token.source ts ++ renderTokens table c us := by
  induction ts with
  | nil => rfl
  | cons t ts ih =>
    rw [List.forall_mem_cons] at h
    rw [List.cons_append, renderTokens_copy (plan_of_no_directives h.1 _), ih h.2, Token.source_cons, List.append_assoc]

/-- **Content among the sites of an edited tag** is that of a tag without a body, or is bounded by a close tag. -/
theorem content_cases (h : (plan table t rest).edited? = some (tag, attributes)) {s : Site}
    (hs : attributes.content? = some s) :
    (tag.hasBody = false ∧ plan table t rest = .tag tag attributes) ∨
      (∃ body, tag.hasBody = true ∧ splitAtClose tag.name 0 rest = some body ∧
        plan table t rest = .content tag attributes s.key body) := by
  obtain ⟨-, -, hsites, hne⟩ := edited?_plan h
  have hplan := plan_of_edited? h
  have hmem : s ∈ attributes.sites := List.mem_of_find?_eq_some hs
  have hcontent : s.isContent = true := List.find?_some hs
  -- content that is left has not been given up
  have hgiven : (tag.hasBody && (bodyOf? tag rest).isNone) = false := by
    cases hg : (tag.hasBody && (bodyOf? tag rest).isNone) with
    | false => rfl
    | true =>
      rw [hsites, sitesOf, if_pos hg, SitedAttributes.sites_release, List.mem_filter, hcontent] at hmem
      exact absurd hmem.2 Bool.false_ne_true
  rw [sitesOf, if_neg (by simp [hgiven])] at hsites
  have hcontainer : attributes.container? = none := by
    rw [hsites] at hmem ⊢
    exact SitedAttributes.container?_of_content hmem hcontent
  have hempty : attributes.sites.isEmpty = false := by simpa using hne
  simp only [planSites, hempty, Bool.false_eq_true, if_false, hcontainer, hs] at hplan
  cases hb : tag.hasBody with
  | false =>
    rw [bodyOf?, hb] at hplan
    exact .inl ⟨rfl, hplan⟩
  | true =>
    rw [hb, Bool.true_and] at hgiven
    obtain ⟨body, hbody⟩ := Option.isSome_iff_exists.1 (Option.isNone_eq_false_iff.1 hgiven)
    rw [hbody] at hplan
    rw [bodyOf?, hb, if_pos rfl] at hbody
    exact .inr ⟨body, rfl, hbody, hplan⟩

/-- Content of a tag with a body that nothing bounds is no site. -/
theorem content_given_up (hb : tag.hasBody = true) (hopen : splitAtClose tag.name 0 rest = none) {a : Attribute}
    (ha : a ∈ tag.attributes) {s : Site} (hs : Site.of? table a = some s) (hcontent : s.isContent = true) :
    (a, none) ∈ sitesOf table tag rest := by
  rw [← map_fst_sitesOf table tag rest] at ha
  obtain ⟨⟨a, site⟩, hmem, rfl⟩ := List.mem_map.1 ha
  cases site with
  | none => exact hmem
  | some s' =>
    have hsound := sound_sitesOf table tag rest (a, some s') hmem s' rfl
    rw [hs, Option.some.injEq] at hsound
    have hsite := SitedAttributes.mem_sites.2 ⟨a, hmem⟩
    rw [sitesOf, if_pos (by simp [bodyOf?, hb, hopen]), SitedAttributes.sites_release, List.mem_filter, ← hsound,
      hcontent] at hsite
    exact absurd hsite.2 Bool.false_ne_true

/-! ## What the walk reaches -/

/-- The walk over tokens against a record comes to some tokens, with the record in force there. -/
inductive Reaches (table : DirectiveTable) : Context → List Token → Context → List Token → Prop where
  | here (c : Context) (ts : List Token) : Reaches table c ts c ts
  | copy {c d : Context} {t : Token} {rest us : List Token} :
    plan table t rest = .copy → Reaches table c rest d us → Reaches table c (t :: rest) d us
  | tag {c d : Context} {t : Token} {rest us : List Token} {tag : OpenTag} {attributes : SitedAttributes} :
    plan table t rest = .tag tag attributes → Reaches table c rest d us → Reaches table c (t :: rest) d us
  /-- the body of a content element that nothing takes the place of -/
  | body {c d : Context} {t : Token} {rest us : List Token} {tag : OpenTag} {attributes : SitedAttributes} {key : Text}
    {body : Enclosed} : plan table t rest = .content tag attributes key body →
    (c.get? key).bind Value.asText? = none → loneComment? none body.inner = none →
    Reaches table c body.inner d us → Reaches table c (t :: rest) d us
  | afterContent {c d : Context} {t : Token} {rest us : List Token} {tag : OpenTag} {attributes : SitedAttributes}
    {key : Text} {body : Enclosed} : plan table t rest = .content tag attributes key body →
    Reaches table c body.after d us → Reaches table c (t :: rest) d us
  /-- the body of a container, for one of its records -/
  | scope {c d e : Context} {t : Token} {rest us : List Token} {tag : OpenTag} {attributes : SitedAttributes}
    {site : Site} {body : Enclosed} {scopes : List Context} :
    plan table t rest = .container tag attributes site body → site.scopes? c = some scopes → e ∈ scopes →
    Reaches table e body.inner d us → Reaches table c (t :: rest) d us
  | afterContainer {c d : Context} {t : Token} {rest us : List Token} {tag : OpenTag} {attributes : SitedAttributes}
    {site : Site} {body : Enclosed} : plan table t rest = .container tag attributes site body →
    Reaches table c body.after d us → Reaches table c (t :: rest) d us

/-- **What is reached is rendered:** its rendering stands in that of the whole. -/
theorem Reaches.rendered {c d : Context} {ts us : List Token} (h : Reaches table c ts d us) :
    renderTokens table d us <:+: renderTokens table c ts := by
  induction h with
  | here c ts => exact List.infix_rfl
  | copy hp _ ih =>
    rw [renderTokens_copy hp]
    exact ih.trans (List.suffix_append _ _).isInfix
  | tag hp _ ih =>
    rw [renderTokens_tag hp]
    exact ih.trans (List.suffix_append _ _).isInfix
  | body hp htext hcomment _ ih =>
    rw [renderTokens_content hp, htext, hcomment, List.append_assoc]
    exact ih.trans (List.infix_append _ _ _)
  | afterContent hp _ ih =>
    rw [renderTokens_content hp]
    exact ih.trans (List.suffix_append _ _).isInfix
  | @scope _ _ _ _ _ _ _ _ _ body _ hp hscopes he _ ih =>
    rw [renderTokens_container hp, hscopes, List.append_assoc]
    have hitem := List.infix_of_mem_flatten (List.mem_map_of_mem (f := fun d => renderTokens table d body.inner) he)
    exact ih.trans (hitem.trans (List.infix_append _ _ _))
  | afterContainer hp _ ih =>
    rw [renderTokens_container hp]
    exact ih.trans (List.suffix_append _ _).isInfix

end Render

end MarkupLens
