/-
Rendering a page again. Where every container that is reached resolves and
no tag asks for more than can be carried out on it, the page holds no
directive (`Resolves.inert`), so no context changes it any more.

In general directives are left, and the second pass meets them in another
scope than the first: the loops around them are spent, so they are read
against the context of the whole page. A page is rendered to itself exactly
if nothing acts that the second pass reaches (`render_eq_self_iff`), and
whether that is so can be told from the template and the context alone
(`Settled`).
-/
import MarkupLens.Proofs.Render.Regularity

namespace MarkupLens

variable {table : DirectiveTable}

namespace Forest

/-! ## Forests in which nothing acts -/

/-- No tag holds a directive. -/
def Inert (table : DirectiveTable) (f : Forest) : Prop := ∀ t ∈ f.tags, t.sites table = []

theorem inert_element {tag : PlainTag} {children rest : Forest} : (element tag children rest).Inert table ↔
    tag.sites table = [] ∧ children.Inert table ∧ rest.Inert table := by
  constructor
  · intro h
    refine ⟨h tag (by simp [tags]), fun t ht => h t ?_, fun t ht => h t ?_⟩
    · simp [tags, ht]
    · simp [tags, ht]
  · rintro ⟨h1, h2, h3⟩ t ht
    simp only [tags, List.mem_cons, List.mem_append] at ht
    rcases ht with rfl | ht | ht
    · exact h1
    · exact h2 t ht
    · exact h3 t ht

theorem Inert.concat {fs : List Forest} (h : ∀ f ∈ fs, f.Inert table) : (concat fs).Inert table := by
  intro t ht
  rw [tags_concat] at ht
  obtain ⟨f, hf, ht⟩ := List.mem_flatMap.1 ht
  exact h f hf t ht

theorem fate_of_sites_nil {tag : PlainTag} (h : tag.sites table = []) (c : Context) (children : Forest) :
    fate table c tag children = .walked :=
  fate_walked (PlainTag.container?_of_sites_nil h) (by simp [filling?, PlainTag.content?_of_sites_nil h])

theorem evaluate_element_of_sites_nil {tag : PlainTag} (h : tag.sites table = []) (c : Context)
    (children rest : Forest) : (element tag children rest).evaluate table c =
      element tag (children.evaluate table c) (rest.evaluate table c) := by
  simp only [evaluate, fate_of_sites_nil h, PlainTag.carriedOut_of_sites_nil h]

/-- Nothing that rendering reaches has a directive that acts. -/
def Still (table : DirectiveTable) (c : Context) (f : Forest) : Prop :=
  ∀ v ∈ f.visits table c, fate table v.scope v.tag v.children = .kept ∨ v.tag.sites table = []

theorem still_nil (c : Context) : nil.Still table c := fun v hv => by cases hv

theorem still_element {c : Context} {tag : PlainTag} {children rest : Forest} :
    (element tag children rest).Still table c ↔
      (fate table c tag children = .kept ∨ tag.sites table = [] ∧ children.Still table c) ∧ rest.Still table c := by
  simp only [Still, visits_element, List.mem_cons, List.mem_append]
  constructor
  · intro h
    refine ⟨?_, fun v hv => h v (.inr (.inr hv))⟩
    rcases h _ (.inl rfl) with hk | hs
    · exact .inl hk
    · refine .inr ⟨hs, fun v hv => h v (.inr (.inl ?_))⟩
      rw [fate_of_sites_nil hs]
      exact hv
  · rintro ⟨h1, h2⟩ v (rfl | hv | hv)
    · rcases h1 with hk | ⟨hs, -⟩
      · exact .inl hk
      · exact .inr hs
    · rcases h1 with hk | ⟨hs, hch⟩
      · rw [hk] at hv
        cases hv
      · rw [fate_of_sites_nil hs] at hv
        exact hch v hv
    · exact h2 v hv

theorem Still.evaluate {f : Forest} {c : Context} (h : f.Still table c) : f.evaluate table c = f := by
  induction f with
  | nil => rfl
  | text s rest ih => rw [Forest.evaluate, ih h]
  | comment s rest ih => rw [Forest.evaluate, ih h]
  | element tag children rest ihc ihr =>
    obtain ⟨h1, h2⟩ := still_element.1 h
    rcases h1 with hk | ⟨hs, hch⟩
    · simp only [Forest.evaluate, hk, ihr h2]
    · rw [evaluate_element_of_sites_nil hs, ihc hch, ihr h2]

theorem Inert.still {f : Forest} (h : f.Inert table) (c : Context) : f.Still table c := by
  intro v hv
  have htag : v.tag ∈ f.tags := map_elements f ▸ List.mem_map_of_mem (mem_elements_of_visit hv)
  exact .inr (h v.tag htag)

/-- **Without directives there is nothing to do.** -/
theorem Inert.evaluate {f : Forest} (h : f.Inert table) (c : Context) : f.evaluate table c = f := (h.still c).evaluate

theorem scan_of_mem_tokens {f : Forest} (h : f.WellFormed) {t : Token} (ht : t ∈ Markup.tokens f.written)
    (hk : t.kind = .openTag) : ∃ tag ∈ f.tags, OpenTag.scan t.text = tag.opened := by
  have hmem : t ∈ (Markup.tokens f.written).filter (·.kind == .openTag) :=
    List.mem_filter.2 ⟨ht, by rw [hk]; rfl⟩
  rw [openTags_written h] at hmem
  obtain ⟨tag, htag, rfl⟩ := List.mem_map.1 hmem
  exact ⟨tag, htag, PlainTag.scan_written (h.tag htag)⟩

/-! ## Pages whose directives have all been carried out -/

end Forest

namespace PlainTag

/-- A container on the tag has a body and is neither beside another one nor beside content. -/
def Separate (table : DirectiveTable) (t : PlainTag) : Prop :=
  ∀ s ∈ t.sites table, s.isContainer = true →
    t.hasBody = true ∧ ∀ s' ∈ t.sites table, s'.isContainer = true ∨ s'.isContent = true → s' = s

instance (table : DirectiveTable) (t : PlainTag) : Decidable (t.Separate table) :=
  inferInstanceAs (Decidable (∀ s ∈ t.sites table, s.isContainer = true →
    t.hasBody = true ∧ ∀ s' ∈ t.sites table, s'.isContainer = true ∨ s'.isContent = true → s' = s))

theorem mem_of_container? {t : PlainTag} {s : Site} (h : t.container? table = some s) :
    s ∈ t.sites table ∧ s.isContainer = true := ⟨List.mem_of_find?_eq_some h, List.find?_some h⟩

theorem Separate.sites_carriedOut {t : PlainTag} (h : t.Separate table) (c : Context) :
    (t.carriedOut table c).sites table = [] := by
  rw [PlainTag.sites_carriedOut, left, List.filter_eq_nil_iff]
  intro s hs
  cases hc : t.container? table with
  | none => simp [carries]
  | some first =>
    obtain ⟨hmem, hcont⟩ := mem_of_container? hc
    have honly := (h first hmem hcont).2 s hs
    cases h1 : s.isContainer with
    | true => simp [carries, honly (.inl h1), hcont]
    | false =>
      cases h2 : s.isContent with
      | true =>
        rw [honly (.inr h2), hcont] at h1
        cases h1
      | false => simp [carries, h1, h2]

end PlainTag

namespace Forest

/-- Every container that rendering reaches is bound to what it takes. -/
def Resolves (table : DirectiveTable) (c : Context) (f : Forest) : Prop :=
  ∀ v ∈ f.visits table c, ∀ s ∈ v.tag.sites table, s.isContainer = true → (s.scopes? v.scope).isSome = true

instance (table : DirectiveTable) (c : Context) (f : Forest) : Decidable (f.Resolves table c) :=
  inferInstanceAs (Decidable (∀ v ∈ f.visits table c, ∀ s ∈ v.tag.sites table, s.isContainer = true →
    (s.scopes? v.scope).isSome = true))

theorem Resolves.inert {f : Forest} (hs : ∀ t ∈ f.tags, t.Separate table) {c : Context} (h : f.Resolves table c) :
    (f.evaluate table c).Inert table := by
  induction f generalizing c with
  | nil => exact fun t ht => by cases ht
  | text s rest ih => exact ih hs h
  | comment s rest ih => exact ih hs h
  | element tag children rest ihc ihr =>
    have htag : tag.Separate table := hs tag (by simp [tags])
    have hch : ∀ d, (∀ v ∈ children.visits table d, v ∈ (element tag children rest).visits table c) →
        (children.evaluate table d).Inert table :=
      fun d hd => ihc (fun t ht => hs t (by simp [tags, ht])) fun v hv => h v (hd v hv)
    have hrest : (rest.evaluate table c).Inert table :=
      ihr (fun t ht => hs t (by simp [tags, ht])) fun v hv => h v (mem_visits_of_rest hv)
    rcases fate_cases table c tag children with
      ⟨s, hc, hk, -⟩ | ⟨s, scopes, hc, _, _, hf⟩ | ⟨u, _, _, hf⟩ | ⟨_, _, hf⟩
    · -- the container that keeps the element would resolve
      obtain ⟨hmem, hcont⟩ := PlainTag.mem_of_container? hc
      have hsome := h ⟨c, tag, children⟩ self_mem_visits s hmem hcont
      rw [hk (htag s hmem hcont).1] at hsome
      cases hsome
    · simp only [Forest.evaluate, hf]
      refine inert_element.2 ⟨htag.sites_carriedOut c, Inert.concat fun g hg => ?_, hrest⟩
      obtain ⟨d, hd, rfl⟩ := List.mem_map.1 hg
      exact hch d fun v hv => mem_visits_of_scope hf hd hv
    · simp only [Forest.evaluate, hf]
      exact inert_element.2 ⟨htag.sites_carriedOut c, (fun t ht => by cases ht), hrest⟩
    · simp only [Forest.evaluate, hf]
      exact inert_element.2 ⟨htag.sites_carriedOut c, hch c fun v hv => mem_visits_of_walked hf hv, hrest⟩

/-- **A page whose directives have all been carried out** holds no directive, and no context changes it. -/
theorem stable_of_resolves (table : DirectiveTable) {f : Forest} (h : f.Regular)
    (hs : ∀ t ∈ f.tags, t.Separate table) {c : Context} (hc : c.Plain) (hr : f.Resolves table c) :
    (∀ t ∈ Markup.tokens (Render.renderWith table c f.written), t.kind = .openTag →
      ∀ a ∈ (OpenTag.scan t.text).attributes, Site.of? table a = none) ∧
    ∀ d, Render.renderWith table d (Render.renderWith table c f.written) = Render.renderWith table c f.written := by
  have htidy : (f.evaluate table c).Tidy table := h.tidy.evaluate (.of_plain h.wellFormed hc)
  have hinert : (f.evaluate table c).Inert table := hr.inert hs
  rw [render_written h.wellFormed]
  constructor
  · intro t ht hk a ha
    obtain ⟨tag, htag, hscan⟩ := scan_of_mem_tokens htidy.wellFormed ht hk
    rw [hscan] at ha
    obtain ⟨b, hb, rfl⟩ := List.mem_map.1 ha
    exact List.filterMap_eq_nil_iff.1 (hinert tag htag) b hb
  · intro d
    rw [render_written htidy.wellFormed, hinert.evaluate]

theorem stable_of_resolves_nestedList :
    (nestedList.Regular ∧ (∀ t ∈ nestedList.tags, t.Separate .standard) ∧ twoRows.Plain ∧
      nestedList.Resolves .standard twoRows) ∧
    Render.renderWith .standard .empty (Render.renderWith .standard twoRows nestedList.written) =
      Render.renderWith .standard twoRows nestedList.written := by
  have hregular : nestedList.Regular := by decide +kernel
  have hseparate : ∀ t ∈ nestedList.tags, t.Separate .standard := by decide +kernel
  have hplain : twoRows.Plain := by decide +kernel
  have hresolves : nestedList.Resolves .standard twoRows := by decide +kernel
  exact ⟨⟨hregular, hseparate, hplain, hresolves⟩,
    (stable_of_resolves .standard hregular hseparate hplain hresolves).2 .empty⟩

/-! ## Pages that are rendered to themselves -/

/-- Where two lists differ first, if neither ends there. -/
def Diverges {α : Type} (l m : List α) : Prop := ∃ p a b l' m', l = p ++ a :: l' ∧ m = p ++ b :: m' ∧ a ≠ b

theorem Diverges.ne {α : Type} {l m : List α} (h : Diverges l m) : l ≠ m := by
  obtain ⟨p, a, b, l', m', rfl, rfl, hab⟩ := h
  intro he
  exact hab (List.cons.inj (List.append_cancel_left he)).1

theorem Diverges.append {α : Type} {l m : List α} (h : Diverges l m) (l₂ m₂ : List α) :
    Diverges (l ++ l₂) (m ++ m₂) := by
  obtain ⟨p, a, b, l', m', rfl, rfl, hab⟩ := h
  exact ⟨p, a, b, l' ++ l₂, m' ++ m₂, by simp, by simp, hab⟩

theorem Diverges.behind {α : Type} {l m : List α} (h : Diverges l m) (p : List α) : Diverges (p ++ l) (p ++ m) := by
  obtain ⟨q, a, b, l', m', rfl, rfl, hab⟩ := h
  exact ⟨p ++ q, a, b, l', m', by simp, by simp, hab⟩

theorem carriedOut_ne {tag : PlainTag} {s : Site} (hs : s ∈ tag.sites table)
    (hc : PlainTag.carries (tag.container? table) s = true) (c : Context) : tag.carriedOut table c ≠ tag := by
  intro he
  rw [← he, PlainTag.sites_carriedOut, PlainTag.left, List.mem_filter, hc] at hs
  exact absurd hs.2 Bool.false_ne_true

theorem exists_carried {tag : PlainTag} (hs : tag.sites table ≠ []) :
    ∃ s ∈ tag.sites table, PlainTag.carries (tag.container? table) s = true := by
  cases hc : tag.container? table with
  | some s =>
    obtain ⟨hmem, -⟩ := PlainTag.mem_of_container? hc
    exact ⟨s, hmem, hc ▸ PlainTag.carries_container hc⟩
  | none =>
    obtain ⟨s, hmem⟩ := List.exists_mem_of_ne_nil _ hs
    exact ⟨s, hmem, rfl⟩

/-- **A pass that acts changes a tag,** and the tags in front of it stay. -/
theorem still_or_diverges (f : Forest) (c : Context) :
    f.Still table c ∨ Diverges (f.evaluate table c).tags f.tags := by
  induction f with
  | nil => exact .inl (still_nil c)
  | text s rest ih => exact ih
  | comment s rest ih => exact ih
  | element tag children rest ihc ihr =>
    by_cases hk : fate table c tag children = .kept
    · rcases ihr with hr | hr
      · exact .inl (still_element.2 ⟨.inl hk, hr⟩)
      · simp only [evaluate, hk, tags]
        exact .inr (by simpa using hr.behind (tag :: children.tags))
    · by_cases hs : tag.sites table = []
      · rw [evaluate_element_of_sites_nil hs]
        simp only [tags]
        rcases ihc with hch | hch
        · rcases ihr with hr | hr
          · exact .inl (still_element.2 ⟨.inr ⟨hs, hch⟩, hr⟩)
          · rw [hch.evaluate]
            exact .inr (by simpa using hr.behind (tag :: children.tags))
        · exact .inr (by simpa using (hch.append _ _).behind [tag])
      · obtain ⟨s, hmem, hc⟩ := exists_carried hs
        have hne := carriedOut_ne hmem hc c
        have hhead : ∃ ts, ((element tag children rest).evaluate table c).tags = tag.carriedOut table c :: ts := by
          rcases fate_cases table c tag children with
            ⟨_, _, _, hf⟩ | ⟨_, _, _, _, _, hf⟩ | ⟨_, _, _, hf⟩ | ⟨_, _, hf⟩
          · exact absurd hf hk
          · exact ⟨_, by simp only [evaluate, hf, tags]; rfl⟩
          · exact ⟨_, by simp only [evaluate, hf, tags]; rfl⟩
          · exact ⟨_, by simp only [evaluate, hf, tags]; rfl⟩
        obtain ⟨ts, hts⟩ := hhead
        exact .inr ⟨[], _, _, ts, _, hts, rfl, hne⟩

/-- **A page is rendered to itself** exactly if nothing acts that rendering reaches. -/
theorem render_eq_self_iff {f : Forest} (h : f.Tidy table) {c : Context} (hc : c.Plain) :
    Render.renderWith table c f.written = f.written ↔ f.Still table c := by
  rw [render_written h.wellFormed]
  constructor
  · intro he
    have htags := tags_of_written (h.evaluate (.of_plain h.wellFormed hc)).wellFormed h.wellFormed he
    rcases still_or_diverges f c with hs | hd
    · exact hs
    · exact absurd htags hd.ne
  · intro hs
    rw [hs.evaluate]

/-! ## Rendering twice -/

/-- What the first pass leaves has nothing to act on in the second, which reads it against the context of the
page: a container that was kept is not bound there either, nor is a further container of an element that was
expanded; and without one, no content is left on that element. -/
def Settled (table : DirectiveTable) (page : Context) : Context → Forest → Prop
  | _, .nil => True
  | c, .text _ rest | c, .comment _ rest => Settled table page c rest
  | c, .element tag children rest =>
    (match fate table c tag children with
      | .kept => ∀ s ∈ tag.container? table, tag.hasBody = true → s.scopes? page = none
      | .expanded scopes =>
        match (tag.left table).find? Site.isContainer with
        | some s => s.scopes? page = none
        | none => tag.left table = [] ∧ ∀ scope ∈ scopes, Settled table page scope children
      | .filled _ => True
      | .walked => Settled table page c children) ∧
    Settled table page c rest

theorem left_of_no_container {tag : PlainTag} (h : tag.container? table = none) : tag.left table = [] := by
  rw [PlainTag.left, h, List.filter_eq_nil_iff]
  intro s _
  exact Bool.false_ne_true

theorem still_append {c : Context} {f g : Forest} :
    (f ++ g).Still table c ↔ f.Still table c ∧ g.Still table c := by
  induction f with
  | nil => exact ⟨fun h => ⟨still_nil c, h⟩, fun h => h.2⟩
  | text s rest ih => exact ih
  | comment s rest ih => exact ih
  | element tag children rest _ ih => rw [element_append, still_element, still_element, ih, and_assoc]

theorem still_concat {c : Context} {fs : List Forest} : (concat fs).Still table c ↔ ∀ f ∈ fs, f.Still table c := by
  induction fs with
  | nil => exact ⟨fun _ f hf => (List.not_mem_nil hf).elim, fun _ => still_nil _⟩
  | cons f fs ih => rw [concat, still_append, ih, List.forall_mem_cons]

theorem still_evaluate_iff (page : Context) (f : Forest) (c : Context) :
    (f.evaluate table c).Still table page ↔ f.Settled table page c := by
  induction f generalizing c with
  | nil => exact ⟨fun _ => trivial, fun _ => still_nil _⟩
  | text s rest ih => exact ih c
  | comment s rest ih => exact ih c
  | element tag children rest ihc ihr =>
    rcases fate_cases table c tag children with
      ⟨s, hc, _, hf⟩ | ⟨s, scopes, hc, hb, _, hf⟩ | ⟨u, hc, _, hf⟩ | ⟨hc, _, hf⟩
    · obtain ⟨hmem, -⟩ := PlainTag.mem_of_container? hc
      have hsites : tag.sites table ≠ [] := List.ne_nil_of_mem hmem
      simp only [Settled, evaluate, hf, still_element, ihr, hsites, false_and, or_false, fate_eq_kept_iff, hc,
        Option.some.injEq, exists_eq_left', Option.mem_some, forall_eq']
    · simp only [Settled, evaluate, hf, still_element, ihr, fate_eq_kept_iff, PlainTag.container?,
        PlainTag.sites_carriedOut, hasBody_carriedOut, hb]
      cases hfurther : (tag.left table).find? Site.isContainer with
      | some s' =>
        have hleft : tag.left table ≠ [] := List.ne_nil_of_mem (List.mem_of_find?_eq_some hfurther)
        simp [hleft]
      | none => simp [still_concat, ihc]
    · have hleft := left_of_no_container hc
      have htext : (text u nil).Still table page := still_nil page
      simp only [Settled, evaluate, hf, still_element, ihr, PlainTag.sites_carriedOut, hleft, true_and, htext, or_true]
    · have hleft := left_of_no_container hc
      have hkept : fate table page (tag.carriedOut table c) (children.evaluate table c) ≠ .kept := by
        rw [Ne, fate_eq_kept_iff]
        simp [PlainTag.container?, PlainTag.sites_carriedOut, hleft]
      simp only [Settled, evaluate, hf, still_element, ihr, ihc, PlainTag.sites_carriedOut, hleft, true_and, hkept,
        false_or]

/-- **Rendering twice** gives what rendering once gives exactly if the first pass left nothing that acts in the
second. -/
theorem render_twice_iff (table : DirectiveTable) {f : Forest} (h : f.Regular) {c : Context} (hc : c.Plain) :
    Render.renderWith table c (Render.renderWith table c f.written) = Render.renderWith table c f.written ↔
      f.Settled table c c := by
  have htidy : (f.evaluate table c).Tidy table := h.tidy.evaluate (.of_plain h.wellFormed hc)
  rw [render_written h.wellFormed, render_eq_self_iff htidy hc, still_evaluate_iff]

theorem render_twice_nestedList : nestedList.Settled .standard twoRows twoRows ∧
    Render.renderWith .standard twoRows (Render.renderWith .standard twoRows nestedList.written) =
      Render.renderWith .standard twoRows nestedList.written := by
  have hsettled : nestedList.Settled .standard twoRows twoRows := by
    refine ⟨⟨rfl, fun scope hscope => ?_⟩, trivial⟩
    rcases List.mem_cons.1 hscope with rfl | hscope
    · exact ⟨trivial, trivial⟩
    · rw [List.mem_singleton.1 hscope]
      exact ⟨trivial, trivial⟩
  have hregular : nestedList.Regular := by decide +kernel
  have hplain : twoRows.Plain := by decide +kernel
  exact ⟨hsettled, (render_twice_iff .standard hregular hplain).2 hsettled⟩

/-- A card in the entries of a list. -/
def cardList : Forest :=
  .element ⟨"div", [("data-nyanLoop", some "rows")], false⟩
    (.element ⟨"p", [("data-nyanHtml", some "card")], false⟩ (.text "none" .nil) .nil) .nil

/-- The page has a card, its one row has none. -/
def pageCard : Context := .ofList [("card", .record .empty), ("rows", .list [.empty])]

/-- The card that the row left is expanded by the second pass. -/
theorem render_twice_cardList : cardList.Regular ∧ pageCard.Plain ∧
    Render.render pageCard (Render.render pageCard cardList.written) ≠ Render.render pageCard cardList.written := by
  have hregular : cardList.Regular := by decide +kernel
  have hplain : pageCard.Plain := by decide +kernel
  have hagain : (cardList.evaluate .standard pageCard).WellFormed := by decide +kernel
  refine ⟨hregular, hplain, ?_⟩
  rw [Render.render, Render.render, render_written hregular.wellFormed, render_written hagain]
  decide +kernel

end Forest

end MarkupLens
