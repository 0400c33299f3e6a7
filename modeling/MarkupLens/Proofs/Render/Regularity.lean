/-
What rendering keeps of a template: a page is markup in the plain style
again, whatever records its loops went through, provided the texts that are
put in do not break out of their places (`Tidy.evaluate`).

The point is that the names of a tag stay distinct. An attribute is either
left, and then no directive of the tag writes its name, or is a directive
that is carried out, and what that writes tells its kind. A marker could
only meet the same marker put there before, so templates hold none beside
the directive (`Unmarked`), and that is kept as well.
-/
import MarkupLens.Proofs.Context.Depth
import MarkupLens.Proofs.Directive.Names
import MarkupLens.Proofs.Render.Refinement

namespace MarkupLens

open Text (trim)

variable {table : DirectiveTable}

theorem Site.kind_of_isContent {s : Site} (h : s.isContent = true) : s.kind = .content :=
  DirectiveKind.eq_content (isContent_iff.1 h)

namespace PlainTag

theorem isName_target {k : DirectiveKind} {name : Text} (h : k.binding.target? = some name) : IsName name := by
  cases k <;> cases h <;> decide

theorem isName_marker (k : DirectiveKind) : IsName k.marker := by
  cases k <;> decide

theorem not_mem_of_isWord {key : Text} (h : Text.isWord key = true) {d : Char} (hd : Text.isWordChar d = false) :
    d ∉ key := by
  intro hm
  have := (Text.isWord_iff.1 h).2 d hm
  rw [hd] at this
  cases this

theorem site_mem_attributes {t : PlainTag} {s : Site} (h : s ∈ t.sites table) :
    (s.kind.trigger, some s.key) ∈ t.attributes := by
  obtain ⟨a, ha, hs⟩ := List.mem_filterMap.1 h
  rw [← (site?_eq_some.1 hs).2.1]
  exact ha

theorem mem_sites {t : PlainTag} {s : Site} : s ∈ t.sites table ↔
    s.kind ∈ table ∧ (s.kind.trigger, some s.key) ∈ t.attributes ∧ Text.isWord s.key = true := by
  constructor
  · intro h
    obtain ⟨a, ha, hs⟩ := List.mem_filterMap.1 h
    obtain ⟨h1, h2, h3⟩ := site?_eq_some.1 hs
    exact ⟨h1, h2 ▸ ha, h3⟩
  · rintro ⟨h1, h2, h3⟩
    exact List.mem_filterMap.2 ⟨_, h2, site?_eq_some.2 ⟨h1, rfl, h3⟩⟩

theorem WellFormed.unique {t : PlainTag} (h : t.WellFormed) {a b : Text × Option Text} (ha : a ∈ t.attributes)
    (hb : b ∈ t.attributes) (hn : a.1 = b.1) : a = b := by
  have hd := h.distinct
  generalize t.attributes = l at ha hb hd
  induction l with
  | nil => cases ha
  | cons x l ih =>
    simp only [List.map_cons, List.nodup_cons, List.mem_map, not_exists, not_and] at hd
    rcases List.mem_cons.1 ha with rfl | hal <;> rcases List.mem_cons.1 hb with rfl | hbl
    · rfl
    · exact absurd hn.symm (hd.1 b hbl)
    · exact absurd hn (hd.1 a hal)
    · exact ih hal hbl hd.2

theorem WellFormed.unique_site {t : PlainTag} (h : t.WellFormed) {s s' : Site} (hs : s ∈ t.sites table)
    (hs' : s' ∈ t.sites table) (hk : s.kind = s'.kind) : s = s' := by
  have ha := h.unique (site_mem_attributes hs) (site_mem_attributes hs') (by rw [hk])
  obtain ⟨k, key⟩ := s
  obtain ⟨k', key'⟩ := s'
  simp only [Prod.mk.injEq, Option.some.injEq] at ha hk
  rw [hk, ha.2]

/-- The content directive of a tag is its only one. -/
theorem content?_eq_some {t : PlainTag} (h : t.WellFormed) {s : Site} :
    t.content? table = some s ↔ s ∈ t.sites table ∧ s.isContent = true := by
  constructor
  · exact fun hs => ⟨List.mem_of_find?_eq_some hs, List.find?_some hs⟩
  · rintro ⟨hs, hcontent⟩
    cases hc : t.content? table with
    | none => exact absurd hcontent (List.find?_eq_none.1 hc s hs)
    | some s' =>
      have hs' : s' ∈ t.sites table := List.mem_of_find?_eq_some hc
      have hcontent' : s'.isContent = true := List.find?_some hc
      rw [h.unique_site hs' hs ((Site.kind_of_isContent hcontent').trans (Site.kind_of_isContent hcontent).symm)]

/-! ## What a directive gives way to -/

theorem mem_results {c : Context} {s : Site} {b : Text × Option Text} (h : b ∈ s.results c) :
    s.kind.binding.target? = some b.1 ∧ b ∈ s.writes c ∨ b = (s.kind.marker, some s.key) := by
  rcases List.mem_append.1 h with hw | hm
  · refine .inl ⟨?_, hw⟩
    simp only [Site.writes] at hw
    cases hb : s.kind.binding with
    | content | loop | scope => simp [hb] at hw
    | «attribute» name =>
      simp only [hb, List.mem_singleton] at hw
      rw [hw]
      rfl
    | boolean name =>
      simp only [hb] at hw
      split at hw
      · rw [List.mem_singleton.1 hw]
        rfl
      · cases hw
  · exact .inr (List.mem_singleton.1 hm)

theorem site?_results {c : Context} {s : Site} {b : Text × Option Text} (h : b ∈ s.results c) :
    site? table b = none := by
  cases hb : site? table b with
  | none => rfl
  | some s' =>
    have hn : b.1 = s'.kind.trigger := by rw [(site?_eq_some.1 hb).2.1]
    rcases mem_results h with ⟨ht, -⟩ | rfl
    · have := DirectiveKind.sameName_trigger_target ht s'.kind
      rw [hn, Text.sameName_refl] at this
      cases this
    · exact absurd hn (DirectiveKind.marker_ne_trigger _ _)

theorem mem_driven {t : PlainTag} {s : Site} (h : s ∈ t.sites table) {name : Text}
    (hn : s.kind.binding.target? = some name) : name ∈ t.driven table := List.mem_filterMap.2 ⟨s, h, hn⟩

/-- A directive is not among the attributes whose name is written, by directives of whatever table. -/
theorem any_driven_of_site? {table' : DirectiveTable} {t : PlainTag} {a : Text × Option Text} {s : Site}
    (h : site? table a = some s) : (t.driven table').any (Text.sameName a.1) = false := by
  rw [List.any_eq_false]
  intro name hname
  obtain ⟨s', -, hs'⟩ := List.mem_filterMap.1 hname
  rw [(site?_eq_some.1 h).2.1, DirectiveKind.sameName_trigger_target hs']
  exact Bool.false_ne_true

theorem mem_attributeAfter {c : Context} {t : PlainTag} {a b : Text × Option Text}
    (h : b ∈ t.attributeAfter table c a) :
    (∃ s, site? table a = some s ∧ carries (t.container? table) s = true ∧ b ∈ s.results c) ∨
    (b = a ∧ (t.driven table).any (Text.sameName a.1) = false ∧
      ∀ s, site? table a = some s → carries (t.container? table) s = false) := by
  unfold attributeAfter at h
  cases hf : (site? table a).filter (carries (t.container? table)) with
  | some s =>
    obtain ⟨hs, hc⟩ := Option.filter_eq_some_iff.1 hf
    rw [hf] at h
    exact .inl ⟨s, hs, hc, h⟩
  | none =>
    rw [hf] at h
    simp only at h
    split at h
    · cases h
    · rename_i hd
      refine .inr ⟨List.mem_singleton.1 h, by simpa using hd, fun s hs => ?_⟩
      rw [hs] at hf
      simpa using Option.filter_eq_none_iff.1 hf s rfl

/-- Where an attribute of the tag comes from once the directives are carried out. -/
theorem mem_carriedOut {c : Context} {t : PlainTag} {b : Text × Option Text}
    (h : b ∈ (t.carriedOut table c).attributes) :
    (∃ s ∈ t.sites table, carries (t.container? table) s = true ∧ b ∈ s.results c) ∨
    (b ∈ t.attributes ∧ (t.driven table).any (Text.sameName b.1) = false ∧
      ∀ s, site? table b = some s → carries (t.container? table) s = false) := by
  obtain ⟨a, hat, hb⟩ := List.mem_flatMap.1 h
  rcases mem_attributeAfter hb with ⟨s, hs, hc, hr⟩ | ⟨rfl, hd, hn⟩
  · exact .inl ⟨s, List.mem_filterMap.2 ⟨a, hat, hs⟩, hc, hr⟩
  · exact .inr ⟨hat, hd, hn⟩

theorem results_mem_carriedOut {c : Context} {t : PlainTag} {s : Site} (hs : s ∈ t.sites table)
    (hc : carries (t.container? table) s = true) {b : Text × Option Text} (hb : b ∈ s.results c) :
    b ∈ (t.carriedOut table c).attributes := by
  obtain ⟨a, hat, hsa⟩ := List.mem_filterMap.1 hs
  refine List.mem_flatMap.2 ⟨a, hat, ?_⟩
  simp only [attributeAfter, hsa, Option.filter_some, hc, if_true]
  exact hb

/-! ## Distinct names -/

/-- No marker of a directive stands beside the directive. -/
def Unmarked (table : DirectiveTable) (t : PlainTag) : Prop :=
  ∀ s ∈ t.sites table, ∀ a ∈ t.attributes, a.1 ≠ s.kind.marker

theorem results_ne_left {c : Context} {t : PlainTag} (hu : t.Unmarked table) {s : Site} (hs : s ∈ t.sites table)
    {a b : Text × Option Text} (ha : a ∈ t.attributes) (hd : (t.driven table).any (Text.sameName a.1) = false)
    (hb : b ∈ s.results c) : b.1 ≠ a.1 := by
  intro he
  rcases mem_results hb with ⟨ht, -⟩ | rfl
  · have hnot := List.any_eq_false.1 hd b.1 (mem_driven hs ht)
    rw [he, Text.sameName_refl] at hnot
    exact hnot rfl
  · exact hu s hs a ha he.symm

theorem results_ne_results {c : Context} {s s' : Site} (hk : s.kind ≠ s'.kind) {b b' : Text × Option Text}
    (hb : b ∈ s.results c) (hb' : b' ∈ s'.results c) : b.1 ≠ b'.1 := by
  intro he
  rcases mem_results hb with ⟨ht, -⟩ | rfl <;> rcases mem_results hb' with ⟨ht', -⟩ | rfl
  · exact hk (DirectiveKind.target_inj ht (he ▸ ht'))
  · exact DirectiveKind.marker_ne_target ht _ he.symm
  · exact DirectiveKind.marker_ne_target ht' _ he
  · exact hk (DirectiveKind.marker_inj he)

theorem attributeAfter_ne {c : Context} {t : PlainTag} (hu : t.Unmarked table) {a a' b b' : Text × Option Text}
    (ha : a ∈ t.attributes) (ha' : a' ∈ t.attributes) (hn : a.1 ≠ a'.1) (hb : b ∈ t.attributeAfter table c a)
    (hb' : b' ∈ t.attributeAfter table c a') : b.1 ≠ b'.1 := by
  have hsite : ∀ {x : Text × Option Text} {s : Site}, x ∈ t.attributes → site? table x = some s → s ∈ t.sites table :=
    fun hx hs => List.mem_filterMap.2 ⟨_, hx, hs⟩
  rcases mem_attributeAfter hb with ⟨s, hs, -, hr⟩ | ⟨rfl, hd, -⟩ <;>
    rcases mem_attributeAfter hb' with ⟨s', hs', -, hr'⟩ | ⟨rfl, hd', -⟩
  · refine results_ne_results (fun hk => hn ?_) hr hr'
    rw [(site?_eq_some.1 hs).2.1, (site?_eq_some.1 hs').2.1, hk]
  · exact results_ne_left hu (hsite ha hs) ha' hd' hr
  · exact (results_ne_left hu (hsite ha' hs') ha hd hr').symm
  · exact hn

theorem nodup_results (c : Context) (s : Site) : ((s.results c).map (·.1)).Nodup := by
  have hm : ∀ name, s.kind.binding.target? = some name → name ≠ s.kind.marker :=
    fun name hn he => DirectiveKind.marker_ne_target hn s.kind he.symm
  simp only [Site.results, Site.writes]
  cases hb : s.kind.binding with
  | content | loop | scope => simp
  | «attribute» name => simp [hm name (by rw [hb]; rfl)]
  | boolean name =>
    simp only
    split <;> simp [hm name (by rw [hb]; rfl)]

theorem nodup_carriedOut {t : PlainTag} (h : t.WellFormed) (hu : t.Unmarked table) (c : Context) :
    ((t.carriedOut table c).attributes.map (·.1)).Nodup := by
  have hd : t.attributes.Pairwise fun a a' => a.1 ≠ a'.1 := List.pairwise_map.1 h.distinct
  refine List.pairwise_map.2 (List.pairwise_flatMap.2 ⟨fun a _ => ?_, ?_⟩)
  · unfold attributeAfter
    split
    · exact List.pairwise_map.1 (nodup_results c _)
    · split <;> simp
  · refine hd.imp_of_mem fun {a a'} ha ha' hn => ?_
    exact fun b hb b' hb' => attributeAfter_ne hu ha ha' hn hb hb'

/-! ## The tag that is left -/

/-- What the directives of a tag write ends neither the quotes nor the tag. -/
def StaysWhole (table : DirectiveTable) (c : Context) (t : PlainTag) : Prop :=
  ∀ s ∈ t.sites table, ∀ a ∈ s.writes c, ∀ v ∈ a.2, '"' ∉ v ∧ '>' ∉ v

theorem wellFormed_carriedOut {t : PlainTag} (h : t.WellFormed) (hu : t.Unmarked table) {c : Context}
    (ha : t.StaysWhole table c) : (t.carriedOut table c).WellFormed := by
  refine ⟨h.letter, h.name, ?_, ?_, nodup_carriedOut h hu c⟩
  · intro b hb
    rcases mem_carriedOut hb with ⟨s, -, -, hr⟩ | ⟨hb, -⟩
    · rcases mem_results hr with ⟨ht, -⟩ | rfl
      · exact isName_target ht
      · exact isName_marker _
    · exact h.names b hb
  · intro b hb v hv
    rcases mem_carriedOut hb with ⟨s, hs, -, hr⟩ | ⟨hb, -⟩
    · rcases mem_results hr with ⟨-, hw⟩ | rfl
      · exact ha s hs b hw v hv
      · cases hv
        have hword := (mem_sites.1 hs).2.2
        exact ⟨not_mem_of_isWord hword (by decide), not_mem_of_isWord hword (by decide)⟩
    · exact h.values b hb v hv

/-- **The directives that are left** on a tag are those that were not carried out. -/
theorem sites_carriedOut (t : PlainTag) (c : Context) : (t.carriedOut table c).sites table = t.left table := by
  have hone : ∀ a, (t.attributeAfter table c a).filterMap (site? table) =
      ((site? table a).filter fun s => !carries (t.container? table) s).toList := by
    intro a
    unfold attributeAfter
    cases hs : site? table a with
    | none =>
      simp only [Option.filter_none]
      split <;> simp [hs]
    | some s =>
      cases hc : carries (t.container? table) s with
      | true =>
        have hnil : (s.results c).filterMap (site? table) = [] :=
          List.filterMap_eq_nil_iff.2 fun b hb => site?_results hb
        simp [Option.filter_some, hc, hnil]
      | false => simp [Option.filter_some, hc, any_driven_of_site? hs, hs]
  have hall : ∀ l : List (Text × Option Text), (l.flatMap (t.attributeAfter table c)).filterMap (site? table) =
      (l.filterMap (site? table)).filter fun s => !carries (t.container? table) s := by
    intro l
    induction l with
    | nil => rfl
    | cons a l ih =>
      rw [List.flatMap_cons, List.filterMap_append, ih, hone, List.filterMap_cons]
      cases site? table a with
      | none => rfl
      | some s => cases hc : carries (t.container? table) s <;> simp [Option.filter_some, hc]
  exact hall t.attributes

theorem unmarked_carriedOut {t : PlainTag} (h : t.WellFormed) (hu : t.Unmarked table) (c : Context) :
    (t.carriedOut table c).Unmarked table := by
  intro s hs b hb
  rw [sites_carriedOut, left, List.mem_filter] at hs
  rcases mem_carriedOut hb with ⟨s', hs', hc, hr⟩ | ⟨hb, -⟩
  · rcases mem_results hr with ⟨ht, -⟩ | rfl
    · exact fun he => DirectiveKind.marker_ne_target ht _ he.symm
    · -- the same marker would be that of the same directive, which is carried out
      intro he
      have hsame := h.unique_site hs' hs.1 (DirectiveKind.marker_inj he)
      rw [← hsame, hc] at hs
      exact absurd hs.2 (by simp)
  · exact hu s hs.1 b hb

end PlainTag

namespace Forest

/-! ## Elements that are reached -/

theorem visits_element (c : Context) (tag : PlainTag) (children rest : Forest) :
    (element tag children rest).visits table c = ⟨c, tag, children⟩ ::
      ((match fate table c tag children with
        | .kept | .filled _ => []
        | .expanded scopes => scopes.flatMap fun scope => children.visits table scope
        | .walked => children.visits table c) ++ rest.visits table c) := rfl

section visits

variable {c : Context} {tag : PlainTag} {children rest : Forest} {v : Visit}

theorem self_mem_visits : ⟨c, tag, children⟩ ∈ (element tag children rest).visits table c := by
  rw [visits_element]
  exact List.mem_cons_self

theorem mem_visits_of_rest (h : v ∈ rest.visits table c) : v ∈ (element tag children rest).visits table c := by
  rw [visits_element]
  exact List.mem_cons_of_mem _ (List.mem_append_right _ h)

theorem mem_visits_of_scope {scopes : List Context} (hf : fate table c tag children = .expanded scopes) {d : Context}
    (hd : d ∈ scopes) (h : v ∈ children.visits table d) : v ∈ (element tag children rest).visits table c := by
  rw [visits_element, hf]
  exact List.mem_cons_of_mem _ (List.mem_append_left _ (List.mem_flatMap.2 ⟨d, hd, h⟩))

theorem mem_visits_of_walked (hf : fate table c tag children = .walked) (h : v ∈ children.visits table c) :
    v ∈ (element tag children rest).visits table c := by
  rw [visits_element, hf]
  exact List.mem_cons_of_mem _ (List.mem_append_left _ h)

end visits

/-- What holds of a context and passes to the records that containers take from it holds wherever rendering
gets to. -/
theorem visits_spec {P : Context → Prop}
    (hP : ∀ (c : Context) (s : Site) (scopes : List Context), P c → s.scopes? c = some scopes → ∀ d ∈ scopes, P d)
    {f : Forest} {c : Context} (hc : P c) {v : Visit} (hv : v ∈ f.visits table c) :
    P v.scope ∧ (v.tag, v.children) ∈ f.elements := by
  induction f generalizing c with
  | nil => cases hv
  | text s rest ih => exact ih hc hv
  | comment s rest ih => exact ih hc hv
  | element tag children rest ihc ihr =>
    rw [visits_element] at hv
    simp only [elements, List.mem_cons, List.mem_append] at hv ⊢
    rcases hv with rfl | hv | hv
    · exact ⟨hc, .inl rfl⟩
    · have hbelow : ∃ d, P d ∧ v ∈ children.visits table d := by
        rcases fate_cases table c tag children with
          ⟨_, _, _, hf⟩ | ⟨s, scopes, _, _, hs, hf⟩ | ⟨_, _, _, hf⟩ | ⟨_, _, hf⟩
        · rw [hf] at hv
          cases hv
        · rw [hf] at hv
          obtain ⟨d, hd, hv⟩ := List.mem_flatMap.1 hv
          exact ⟨d, hP c s scopes hc hs d hd, hv⟩
        · rw [hf] at hv
          cases hv
        · rw [hf] at hv
          exact ⟨c, hc, hv⟩
      obtain ⟨d, hd, hv⟩ := hbelow
      obtain ⟨h1, h2⟩ := ihc hd hv
      exact ⟨h1, .inr (.inl h2)⟩
    · obtain ⟨h1, h2⟩ := ihr hc hv
      exact ⟨h1, .inr (.inr h2)⟩

theorem mem_elements_of_visit {f : Forest} {c : Context} {v : Visit} (hv : v ∈ f.visits table c) :
    (v.tag, v.children) ∈ f.elements :=
  (visits_spec (fun _ _ _ _ _ _ _ => trivial) (P := fun _ => True) trivial hv).2

/-! ## Tidy forests -/

/-- Well formed, and no marker of a directive beside the directive. -/
structure Tidy (table : DirectiveTable) (f : Forest) : Prop where
  wellFormed : f.WellFormed
  unmarked : ∀ t ∈ f.tags, t.Unmarked table

theorem tidy_text {s : Text} {f : Forest} : (text s f).Tidy table ↔ '<' ∉ s ∧ f.Tidy table :=
  ⟨fun ⟨h, hu⟩ => ⟨h.1, h.2, hu⟩, fun ⟨hs, h, hu⟩ => ⟨⟨hs, h⟩, hu⟩⟩

theorem tidy_comment {s : Text} {f : Forest} :
    (comment s f).Tidy table ↔ '<' ∉ s ∧ Text.holds "-->" s = false ∧ f.Tidy table :=
  ⟨fun ⟨h, hu⟩ => ⟨h.1, h.2.1, h.2.2, hu⟩, fun ⟨hs, he, h, hu⟩ => ⟨⟨hs, he, h⟩, hu⟩⟩

theorem tidy_element {tag : PlainTag} {children rest : Forest} : (element tag children rest).Tidy table ↔
    tag.WellFormed ∧ tag.Unmarked table ∧ (tag.hasBody = false → children = .nil) ∧ children.Tidy table ∧
      rest.Tidy table := by
  constructor
  · rintro ⟨⟨h1, h2, h3, h4⟩, hu⟩
    refine ⟨h1, hu tag (by simp [tags]), h2, ⟨h3, fun t ht => ?_⟩, ⟨h4, fun t ht => ?_⟩⟩
    · exact hu t (by simp [tags, ht])
    · exact hu t (by simp [tags, ht])
  · rintro ⟨h1, hu, h2, ⟨h3, hu3⟩, ⟨h4, hu4⟩⟩
    refine ⟨⟨h1, h2, h3, h4⟩, fun t ht => ?_⟩
    simp only [tags, List.mem_cons, List.mem_append] at ht
    rcases ht with rfl | ht | ht
    · exact hu
    · exact hu3 t ht
    · exact hu4 t ht

theorem Tidy.concat {fs : List Forest} (h : ∀ f ∈ fs, f.Tidy table) : (concat fs).Tidy table := by
  refine ⟨WellFormed.concat fun f hf => (h f hf).wellFormed, fun t ht => ?_⟩
  rw [tags_concat] at ht
  obtain ⟨f, hf, ht⟩ := List.mem_flatMap.1 ht
  exact (h f hf).unmarked t ht

/-! ## What may be put in -/

/-- What is put in at an element does not break out of its place. -/
def Visit.StaysInPlace (table : DirectiveTable) (v : Visit) : Prop :=
  match fate table v.scope v.tag v.children with
  | .kept => True
  | .expanded _ | .walked => v.tag.StaysWhole table v.scope
  | .filled s => v.tag.StaysWhole table v.scope ∧ '<' ∉ s

/-- Nothing that is put in breaks out of its place, wherever rendering gets to. -/
def Admits (table : DirectiveTable) (c : Context) (f : Forest) : Prop :=
  ∀ v ∈ f.visits table c, v.StaysInPlace table

/-- **Rendering keeps forests tidy.** -/
theorem Tidy.evaluate {f : Forest} (h : f.Tidy table) {c : Context} (ha : f.Admits table c) :
    (f.evaluate table c).Tidy table := by
  induction f generalizing c with
  | nil => exact h
  | text s rest ih =>
    obtain ⟨hs, hr⟩ := tidy_text.1 h
    exact tidy_text.2 ⟨hs, ih hr ha⟩
  | comment s rest ih =>
    obtain ⟨hs, he, hr⟩ := tidy_comment.1 h
    exact tidy_comment.2 ⟨hs, he, ih hr ha⟩
  | element tag children rest ihc ihr =>
    obtain ⟨htag, hu, hnil, hch, hr⟩ := tidy_element.1 h
    have hhead : Visit.StaysInPlace table ⟨c, tag, children⟩ := ha _ self_mem_visits
    have hbelow : ∀ d, (∀ v ∈ children.visits table d, v ∈ (element tag children rest).visits table c) →
        (children.evaluate table d).Tidy table := fun d hd => ihc hch fun v hv => ha v (hd v hv)
    have hrest : (rest.evaluate table c).Tidy table := ihr hr fun v hv => ha v (mem_visits_of_rest hv)
    have hafter : tag.StaysWhole table c → ∀ g : Forest, (tag.hasBody = false → g = .nil) → g.Tidy table →
        (element (tag.carriedOut table c) g (rest.evaluate table c)).Tidy table := by
      intro hadm g hg htidy
      exact tidy_element.2 ⟨PlainTag.wellFormed_carriedOut htag hu hadm, PlainTag.unmarked_carriedOut htag hu c, hg,
        htidy, hrest⟩
    rcases fate_cases table c tag children with
      ⟨_, _, _, hf⟩ | ⟨s, scopes, _, hb, hs, hf⟩ | ⟨u, _, hfill, hf⟩ | ⟨_, _, hf⟩
    · simp only [Forest.evaluate, hf]
      exact tidy_element.2 ⟨htag, hu, hnil, hch, hrest⟩
    · simp only [Visit.StaysInPlace, hf] at hhead
      simp only [Forest.evaluate, hf]
      refine hafter hhead _ (by simp [hb]) (Tidy.concat fun g hg => ?_)
      obtain ⟨d, hd, rfl⟩ := List.mem_map.1 hg
      exact hbelow d fun v hv => mem_visits_of_scope hf hd hv
    · have hb : tag.hasBody = true := by
        cases hb : tag.hasBody with
        | true => rfl
        | false => simp [filling?, hb] at hfill
      simp only [Visit.StaysInPlace, hf] at hhead
      simp only [Forest.evaluate, hf]
      exact hafter hhead.1 _ (by simp [hb]) ⟨⟨hhead.2, trivial⟩, fun t ht => by cases ht⟩
    · simp only [Visit.StaysInPlace, hf] at hhead
      simp only [Forest.evaluate, hf]
      exact hafter hhead _ (fun hb => by rw [hnil hb]; rfl) (hbelow c fun v hv => mem_visits_of_walked hf hv)

/-! ## Plain contexts -/

theorem plain_scopes {c : Context} {s : Site} {scopes : List Context} (hc : c.Plain)
    (h : s.scopes? c = some scopes) : ∀ d ∈ scopes, d.Plain := by
  unfold Site.scopes? at h
  split at h
  · rename_i hv
    cases h
    exact fun d hd => hc.item hv hd
  · rename_i hv
    cases h
    intro d hd
    rw [List.mem_singleton.1 hd]
    exact hc.record hv
  · cases h

theorem plain_text? {c : Context} (hc : c.Plain) (s : Site) :
    '<' ∉ (s.text? c).getD [] ∧ '>' ∉ (s.text? c).getD [] ∧ '"' ∉ (s.text? c).getD [] := by
  cases ht : s.text? c with
  | none => simp
  | some t => exact hc.text ht

theorem staysWhole_of_plain {t : PlainTag} {c : Context} (hc : c.Plain) : t.StaysWhole table c := by
  intro s _ a ha v hv
  obtain ⟨-, h1, h2⟩ := plain_text? hc s
  simp only [Site.writes] at ha
  split at ha
  · rw [List.mem_singleton.1 ha] at hv
    cases hv
    exact ⟨h2, h1⟩
  · split at ha
    · rw [List.mem_singleton.1 ha] at hv
      cases hv
    · cases ha
  · cases ha
  · cases ha
  · cases ha

theorem not_mem_placeholder? {f : Forest} (h : f.WellFormed) {s : Text} (hs : f.placeholder? = some s) : '<' ∉ s := by
  have hblanks : f.withoutBlanks.WellFormed := by
    clear hs
    induction f with
    | nil => trivial
    | text u rest ih =>
      rw [withoutBlanks]
      split
      · exact ih h.2
      · exact ⟨h.1, ih h.2⟩
    | comment u rest ih => exact ⟨h.1, h.2.1, ih h.2.2⟩
    | element tag children rest _ ih => exact ⟨h.1, h.2.1, h.2.2.1, ih h.2.2.2⟩
  unfold placeholder? at hs
  split at hs
  · rename_i u he
    cases hs
    rw [he] at hblanks
    exact fun hm => hblanks.1 (Text.mem_of_mem_trim hm)
  · cases hs

/-- **Texts without markup can be put in anywhere.** -/
theorem Admits.of_plain {f : Forest} (h : f.WellFormed) {c : Context} (hc : c.Plain) : f.Admits table c := by
  intro v hv
  obtain ⟨hscope, he⟩ := visits_spec (fun _ _ _ hc hs => plain_scopes hc hs) hc hv
  have htag : v.tag.StaysWhole table v.scope := staysWhole_of_plain hscope
  rcases fate_cases table v.scope v.tag v.children with
    ⟨_, _, _, hf⟩ | ⟨_, _, _, _, _, hf⟩ | ⟨u, _, hfill, hf⟩ | ⟨_, _, hf⟩
  · simp only [Visit.StaysInPlace, hf]
  · simpa only [Visit.StaysInPlace, hf] using htag
  · simp only [Visit.StaysInPlace, hf]
    refine ⟨htag, ?_⟩
    simp only [filling?] at hfill
    split at hfill
    · obtain ⟨s, -, hs⟩ := Option.bind_eq_some_iff.1 hfill
      rcases Option.or_eq_some_iff.1 hs with ht | ⟨-, hp⟩
      · have := (plain_text? hscope s).1
        rwa [ht] at this
      · exact not_mem_placeholder? (h.element he).2.2 hp
    · cases hfill
  · simpa only [Visit.StaysInPlace, hf] using htag

/-! ## Regular templates -/

/-- A template in the plain style that rendering has not touched yet. -/
structure Regular (f : Forest) : Prop where
  wellFormed : f.WellFormed
  fresh : ∀ t ∈ f.tags, ∀ a ∈ t.attributes, ¬ DirectiveKind.markerStem <+: a.1

instance (f : Forest) : Decidable f.Regular :=
  decidable_of_iff (f.WellFormed ∧ ∀ t ∈ f.tags, ∀ a ∈ t.attributes, ¬ DirectiveKind.markerStem <+: a.1)
    ⟨fun ⟨h1, h2⟩ => ⟨h1, h2⟩, fun ⟨h1, h2⟩ => ⟨h1, h2⟩⟩

theorem Regular.tidy {f : Forest} (h : f.Regular) : f.Tidy table := by
  refine ⟨h.wellFormed, fun t ht s _ a ha he => h.fresh t ht a ha ?_⟩
  rw [he]
  exact List.prefix_append _ _

/-- **Rendering refines evaluation:** the page that comes out of a regular template is parsed into the nodes of
the evaluated template. -/
theorem parse_rendered (table : DirectiveTable) {f : Forest} (h : f.Regular) {c : Context} (hc : c.Plain) :
    Markup.parse (Render.renderWith table c f.written) = (f.evaluate table c).nodes := by
  have htidy : (f.evaluate table c).Tidy table := h.tidy.evaluate (.of_plain h.wellFormed hc)
  rw [render_written h.wellFormed, parse_written htidy.wellFormed]

/-- A list of entries in elements of the list's own name; its literal `id` is driven as well. -/
def nestedList : Forest :=
  .element ⟨"div", [("data-nyanLoop", some "rows"), ("id", some "old"), ("data-nyanId", some "anchor")], false⟩
    (.text " " (.element ⟨"div", [("data-nyanString", some "label")], false⟩ (.comment "no label" .nil) .nil)) .nil

/-- Two entries, the second one without a label. -/
def twoRows : Context :=
  .ofList [("anchor", .text "top"), ("rows", .list [.ofList [("label", .text "first")], .empty])]

theorem parse_rendered_nestedList : nestedList.Regular ∧ twoRows.Plain ∧
    Markup.parse (Render.renderWith .standard twoRows nestedList.written) =
      [.element "div" [("data-nyanDoneId", some "anchor"), ("data-nyanDoneLoop", some "rows"), ("id", some "top")]
        [.element "div" [("data-nyanDoneString", some "label")] [.text "first"],
          .element "div" [("data-nyanDoneString", some "label")] [.text "no label"]]] := by
  have hregular : nestedList.Regular := by decide +kernel
  have hplain : twoRows.Plain := by decide +kernel
  refine ⟨hregular, hplain, ?_⟩
  rw [parse_rendered .standard hregular hplain]
  rfl

end Forest

end MarkupLens
