/-
Extraction undoes rendering. Where a template asks for no more than can be
done (`Invertible`) and a context binds, in every record that rendering gets
to, the keys of the template there and no others, each to a value that can be
told from the page (`Covers`, `Visit.Binds`), the page gives the context back.

The induction is over the template, with every record that its parts are
evaluated in. Its invariant is that the elements evaluated so far show the
keys of their directives (`ShowsKeys`): an element's own record shows
those on its tag, the records below it add theirs or, under a container, are
bound to its key, and the records of elements side by side are merged.
-/
import MarkupLens.Proofs.Extract.Marks
import MarkupLens.Proofs.Render.Scopes

namespace MarkupLens

open Extract (marks ownRecord ofNode)
open Markup (attributesOf)

variable {table : DirectiveTable}

namespace Forest

/-! ## Templates that can be undone -/

/-- An element whose directives can all be carried out and read back: what starts like a trigger is one, a
container stands alone, content has a body to fill, without directives in it, and what is repeated is one
element. -/
structure Invertible (table : DirectiveTable) (tag : PlainTag) (children : Forest) : Prop where
  directed : tag.Directed table
  separate : tag.Separate table
  body : ∀ s ∈ tag.sites table, s.isContent = true → tag.hasBody = true ∧ children.Inert table
  single : ∀ s ∈ tag.sites table, s.kind.binding = .loop → children.roots = 1

/-- The record binds no key but those of the forest. -/
def Covers (table : DirectiveTable) (c : Context) (f : Forest) : Prop := c.Canonical ∧ ∀ key ∈ c.keys, key ∈ f.keys table

/-- Every directive of an element that rendering reaches is bound to a value that can be told from the page, and
the records that it takes bind no key but those of the children. -/
structure Visit.Binds (table : DirectiveTable) (v : Visit) : Prop where
  recovers : ∀ s ∈ v.tag.sites table, ∃ value ∈ v.scope.get? s.key, s.kind.binding.Recovers value
  covers : ∀ s ∈ v.tag.sites table, ∀ scopes ∈ s.scopes? v.scope, ∀ d ∈ scopes, Covers table d v.children

instance (tag : PlainTag) (children : Forest) : Decidable (Invertible table tag children) :=
  decidable_of_iff (tag.Directed table ∧ tag.Separate table ∧
      (∀ s ∈ tag.sites table, s.isContent = true → tag.hasBody = true ∧ ∀ t ∈ children.tags, t.sites table = []) ∧
      ∀ s ∈ tag.sites table, s.kind.binding = .loop → children.roots = 1)
    ⟨fun ⟨h1, h2, h3, h4⟩ => ⟨h1, h2, h3, h4⟩, fun ⟨h1, h2, h3, h4⟩ => ⟨h1, h2, h3, h4⟩⟩

instance (c : Context) (f : Forest) : Decidable (Covers table c f) :=
  inferInstanceAs (Decidable ((Keyed.keys c.entries).Pairwise (· < ·) ∧ ∀ key ∈ c.keys, key ∈ f.keys table))

instance (v : Visit) : Decidable (v.Binds table) :=
  decidable_of_iff ((∀ s ∈ v.tag.sites table, ∃ value ∈ v.scope.get? s.key, s.kind.binding.Recovers value) ∧
      ∀ s ∈ v.tag.sites table, ∀ scopes ∈ s.scopes? v.scope, ∀ d ∈ scopes, Covers table d v.children)
    ⟨fun ⟨h1, h2⟩ => ⟨h1, h2⟩, fun ⟨h1, h2⟩ => ⟨h1, h2⟩⟩

theorem Inert.keys {f : Forest} (h : f.Inert table) : f.keys table = [] := by
  induction f with
  | nil => rfl
  | text s rest ih | comment s rest ih => exact ih h
  | element tag children rest ihc ihr =>
    obtain ⟨h1, h2, h3⟩ := inert_element.1 h
    simp [Forest.keys, h1, ihc h2, ihr h3]

/-! ## The fate of an element whose directives are bound -/

theorem scopes?_of_recovers {c : Context} {s : Site} {value : Value} (hv : c.get? s.key = some value)
    (hr : s.kind.binding.Recovers value) (hcont : s.isContainer = true) :
    (∃ items, s.kind.binding = .loop ∧ value = .list items ∧ s.scopes? c = some items) ∨
    (∃ record, s.kind.binding = .scope ∧ value = .record record ∧ s.scopes? c = some [record]) := by
  rw [Site.isContainer] at hcont
  cases hb : s.kind.binding with
  | loop =>
    rw [hb] at hr
    cases value with
    | list items => exact .inl ⟨items, rfl, rfl, by simp [Site.scopes?, hb, hv]⟩
    | flag on | text u | record r => cases hr
  | scope =>
    rw [hb] at hr
    cases value with
    | record r => exact .inr ⟨r, rfl, rfl, by simp [Site.scopes?, hb, hv]⟩
    | flag on | text u | list items => cases hr
  | content | «attribute» name | boolean name =>
    rw [hb] at hcont
    cases hcont

theorem text?_of_recovers {c : Context} {s : Site} {value : Value} (hv : c.get? s.key = some value)
    (hr : s.kind.binding.Recovers value) (hcontent : s.kind.binding = .content) :
    ∃ u, value = .text u ∧ '<' ∉ u ∧ s.text? c = some u := by
  rw [hcontent] at hr
  cases value with
  | text u => exact ⟨u, rfl, hr.1, by rw [Site.text?, hv]; rfl⟩
  | flag on | list items | record r => cases hr

theorem staysWhole_of_recovers {tag : PlainTag} {c : Context}
    (h : ∀ s ∈ tag.sites table, ∃ value, c.get? s.key = some value ∧ s.kind.binding.Recovers value) :
    tag.StaysWhole table c := by
  intro s hs a ha v hv
  obtain ⟨value, hget, hr⟩ := h s hs
  simp only [Site.writes] at ha
  cases hb : s.kind.binding with
  | «attribute» name =>
    rw [hb] at hr
    cases value with
    | text u =>
      have htext : s.text? c = some u := by rw [Site.text?, hget]; rfl
      simp only [hb, htext, Option.getD_some, List.mem_singleton] at ha
      rw [ha] at hv
      cases hv
      exact hr
    | flag on | list items | record r => cases hr
  | boolean name =>
    simp only [hb] at ha
    split at ha
    · rw [List.mem_singleton.1 ha] at hv
      cases hv
    · cases ha
  | content | loop | scope =>
    simp only [hb] at ha
    cases ha

/-- **The fate of such an element:** containers are expanded, content is filled, and others are walked. -/
theorem Invertible.fate {tag : PlainTag} {children : Forest} (hi : Invertible table tag children) {c : Context}
    (hb : Visit.Binds table ⟨c, tag, children⟩) :
    (∃ s ∈ tag.sites table, ∃ scopes, tag.container? table = some s ∧ s.scopes? c = some scopes ∧
      Forest.fate table c tag children = .expanded scopes) ∨
    (∃ s ∈ tag.sites table, ∃ u, tag.container? table = none ∧ s.kind.binding = .content ∧ '<' ∉ u ∧
      c.get? s.key = some (.text u) ∧ Forest.fate table c tag children = .filled u) ∨
    (tag.container? table = none ∧ (∀ s ∈ tag.sites table, s.kind.binding ≠ .content) ∧
      Forest.fate table c tag children = .walked) := by
  cases hc : tag.container? table with
  | some s =>
    obtain ⟨hmem, hcont⟩ := PlainTag.mem_of_container? hc
    obtain ⟨value, hv, hr⟩ := hb.recovers s hmem
    have hbody := (hi.separate s hmem hcont).1
    rcases scopes?_of_recovers hv hr hcont with ⟨items, -, -, hs⟩ | ⟨record, -, -, hs⟩
    · exact .inl ⟨s, hmem, items, rfl, hs, fate_expanded hc hbody hs⟩
    · exact .inl ⟨s, hmem, [record], rfl, hs, fate_expanded hc hbody hs⟩
  | none =>
    cases hs : tag.content? table with
    | some s =>
      have hmem : s ∈ tag.sites table := List.mem_of_find?_eq_some hs
      have hcontent : s.isContent = true := List.find?_some hs
      obtain ⟨value, hv, hr⟩ := hb.recovers s hmem
      obtain ⟨u, rfl, hu, htext⟩ := text?_of_recovers hv hr (Site.isContent_iff.1 hcontent)
      have hfill : filling? table c tag children = some u := by
        simp [filling?, (hi.body s hmem hcontent).1, hs, htext]
      exact .inr (.inl ⟨s, hmem, u, rfl, Site.isContent_iff.1 hcontent, hu, hv, fate_filled hc hfill⟩)
    | none =>
      have hfill : filling? table c tag children = none := by simp [filling?, hs]
      refine .inr (.inr ⟨rfl, fun s hmem hb => ?_, fate_walked hc hfill⟩)
      exact List.find?_eq_none.1 hs s hmem (Site.isContent_iff.2 hb)

theorem Invertible.staysInPlace {tag : PlainTag} {children : Forest} (hi : Invertible table tag children) {c : Context}
    (hb : Visit.Binds table ⟨c, tag, children⟩) : Visit.StaysInPlace table ⟨c, tag, children⟩ := by
  have htag : tag.StaysWhole table c := staysWhole_of_recovers hb.recovers
  rcases hi.fate hb with ⟨_, _, _, _, _, hf⟩ | ⟨_, _, u, _, _, hu, _, hf⟩ | ⟨_, _, hf⟩
  · simpa only [Visit.StaysInPlace, hf] using htag
  · simpa only [Visit.StaysInPlace, hf] using ⟨htag, hu⟩
  · simpa only [Visit.StaysInPlace, hf] using htag

/-! ## The record of an element -/

theorem record_of_container {tag : PlainTag} {children : Forest} (hi : Invertible table tag children) {c : Context}
    (hw : (tag.carriedOut table c).WellFormed) {s : Site} (hs : tag.container? table = some s) (g : Forest) :
    record table (tag.carriedOut table c) g =
      (ownRecord (marks table (attributesOf (tag.carriedOut table c).opened))
        (attributesOf (tag.carriedOut table c).opened) (g.nodesAfter [])).insert s.key
        (if s.kind.binding = .loop then .list (g.records table)
          else .record ((g.records table).foldl Context.merge .empty)) := by
  have hcont := PlainTag.container?_marks hi.directed hi.separate hw
  rw [hs] at hcont
  rw [record, ofNode, hcont, ofEach_nodesAfter, mergeInto_nodesAfter g [] .empty]
  simp only [Option.map_some, PlainTag.markOf]
  split <;> rfl

theorem record_of_no_container {tag : PlainTag} {children : Forest} (hi : Invertible table tag children) {c : Context}
    (hw : (tag.carriedOut table c).WellFormed) (hs : tag.container? table = none) (g : Forest) :
    record table (tag.carriedOut table c) g = (g.records table).foldl Context.merge
      (ownRecord (marks table (attributesOf (tag.carriedOut table c).opened))
        (attributesOf (tag.carriedOut table c).opened) (g.nodesAfter [])) := by
  have hcont := PlainTag.container?_marks hi.directed hi.separate hw
  rw [hs] at hcont
  rw [record, ofNode, hcont, ← mergeInto_nodesAfter g []]
  rfl

/-- What a tag gives by itself: what its directives, containers apart, were bound to. -/
theorem shows_own {tag : PlainTag} {children : Forest} (ht : tag.WellFormed) (hi : Invertible table tag children)
    {c : Context} (hw : (tag.carriedOut table c).WellFormed) (hb : Visit.Binds table ⟨c, tag, children⟩)
    (nodes : List Node)
    (hcontent : ∀ s ∈ tag.sites table, ∀ u, s.kind.binding = .content → c.get? s.key = some (.text u) →
      nodes = Node.ofText u) :
    c.recovered.Shows (((tag.sites table).filter fun s => !s.isContainer).map (·.key))
      (ownRecord (marks table (attributesOf (tag.carriedOut table c).opened))
        (attributesOf (tag.carriedOut table c).opened) nodes) := by
  have hmarks : ∀ m, m ∈ marks table (attributesOf (tag.carriedOut table c).opened) ↔
      ∃ s ∈ tag.sites table, m = PlainTag.markOf s := fun m => PlainTag.mem_marks hi.directed hi.separate hw
  have hbound : ∀ m ∈ marks table (attributesOf (tag.carriedOut table c).opened), m.binding.isContainer = false →
      c.recovered.get? m.key = some (m.value (attributesOf (tag.carriedOut table c).opened) nodes) := by
    intro m hm hcont
    obtain ⟨s, hs, rfl⟩ := (hmarks m).1 hm
    obtain ⟨v, hv, hr⟩ := hb.recovers s hs
    have hvalue := PlainTag.value_mark ht hw hs (hi.separate.carries hs) hv hr hcont
      (fun u hbind he => hcontent s hs u hbind (he ▸ hv))
    rw [hvalue, Context.get?_recovered]
    exact congrArg (Option.map Value.recovered) hv
  refine (Extract.shows_ownRecord _ _ nodes hbound).congr fun key => ?_
  simp only [List.mem_map, List.mem_filter, Extract.mem_ordered, hmarks, Bool.not_eq_true']
  constructor
  · rintro ⟨s, ⟨hs, hcont⟩, rfl⟩
    exact ⟨_, ⟨⟨s, hs, rfl⟩, hcont⟩, rfl⟩
  · rintro ⟨_, ⟨⟨s, hs, rfl⟩, hcont⟩, rfl⟩
    exact ⟨s, ⟨hs, hcont⟩, rfl⟩

theorem Covers.eq {f : Forest} {d r : Context} (h : Covers table d f) (hr : d.recovered.Shows (f.keys table ++ []) r) :
    r = d.recovered := by
  refine hr.eq h.1.recovered fun key hk => ?_
  rw [Context.keys_recovered] at hk
  rw [List.append_nil]
  exact h.2 key hk

/-- What an element shows: the keys on its tag, and unless they are read in other records those below. -/
def elementKeys (table : DirectiveTable) (tag : PlainTag) (children : Forest) : List Text :=
  (tag.sites table).map (·.key) ++ if (tag.container? table).isSome then [] else children.keys table

/-- What evaluating some forest gives shows its keys, in whatever record that binds it. -/
def ShowsKeys (table : DirectiveTable) (f : Forest) : Prop :=
  ∀ (d : Context), (∀ v ∈ f.visits table d, v.Binds table) → ∀ (keys : List Text) (r : Context),
    d.recovered.Shows keys r →
      d.recovered.Shows (f.keys table ++ keys) (((f.evaluate table d).records table).foldl Context.merge r)

/-- A covered record is what its forest gives. -/
theorem ShowsKeys.covered {f : Forest} (h : f.ShowsKeys table) {d : Context}
    (hb : ∀ v ∈ f.visits table d, v.Binds table) (hd : Covers table d f) :
    ((f.evaluate table d).records table).foldl Context.merge .empty = d.recovered :=
  hd.eq (h d hb [] .empty .empty)

theorem mem_elementKeys_of_container {tag : PlainTag} {children : Forest} (hs : tag.Separate table) {s : Site}
    (hc : tag.container? table = some s) {key : Text} : key ∈ elementKeys table tag children ↔
      key ∈ s.key :: ((tag.sites table).filter fun s => !s.isContainer).map (·.key) := by
  obtain ⟨hmem, hcont⟩ := PlainTag.mem_of_container? hc
  simp only [elementKeys, hc, Option.isSome_some, if_true, List.append_nil, List.mem_cons, List.mem_map,
    List.mem_filter, Bool.not_eq_true']
  constructor
  · rintro ⟨s', hs', rfl⟩
    cases hcont' : s'.isContainer with
    | true => exact .inl (congrArg Site.key ((hs s hmem hcont).2 s' hs' (.inl hcont')))
    | false => exact .inr ⟨s', ⟨hs', hcont'⟩, rfl⟩
  · rintro (rfl | ⟨s', ⟨hs', -⟩, rfl⟩)
    · exact ⟨s, hmem, rfl⟩
    · exact ⟨s', hs', rfl⟩

/-- Where the single element that is repeated gives each item back, the list does. -/
theorem records_items {children : Forest} (h : children.roots = 1) {items : List Context}
    (hgives : ∀ d ∈ items, ((children.evaluate table d).records table).foldl Context.merge .empty = d.recovered) :
    (concat (items.map fun d => children.evaluate table d)).records table = Context.recoveredItems items := by
  rw [records_repeated h, Context.recoveredItems_eq]
  exact List.map_congr_left hgives

/-- **A container binds its key** to the records that its children were evaluated in. -/
theorem shows_container {tag : PlainTag} {children : Forest} (ht : tag.WellFormed)
    (hi : Invertible table tag children) {c : Context} (hb : Visit.Binds table ⟨c, tag, children⟩) {s : Site}
    {scopes : List Context} (hc : tag.container? table = some s) (hs : s.scopes? c = some scopes)
    (hbelow : children.ShowsKeys table) (hscopes : ∀ d ∈ scopes, ∀ v ∈ children.visits table d, v.Binds table) :
    c.recovered.Shows (elementKeys table tag children) (record table (tag.carriedOut table c)
      (concat (scopes.map fun scope => children.evaluate table scope))) := by
  have hw : (tag.carriedOut table c).WellFormed :=
    PlainTag.wellFormed_carriedOut ht hi.directed.unmarked (staysWhole_of_recovers hb.recovers)
  obtain ⟨hmem, hcont⟩ := PlainTag.mem_of_container? hc
  have honly := (hi.separate s hmem hcont).2
  have hcovers : ∀ d ∈ scopes, Covers table d children := hb.covers s hmem scopes hs
  have hgives : ∀ d ∈ scopes,
      ((children.evaluate table d).records table).foldl Context.merge .empty = d.recovered :=
    fun d hd => hbelow.covered (hscopes d hd) (hcovers d hd)
  have hnone : ∀ s' ∈ tag.sites table, s'.kind.binding ≠ .content := by
    intro s' hs' hbind
    have hcontent := Site.isContent_iff.2 hbind
    rw [honly s' hs' (.inr hcontent), PlainTag.isContent_of_isContainer hcont] at hcontent
    cases hcontent
  have hown := shows_own ht hi hw hb ((concat (scopes.map fun d => children.evaluate table d)).nodesAfter [])
    fun s' hs' u hbind _ => absurd hbind (hnone s' hs')
  obtain ⟨value, hv, hr⟩ := hb.recovers s hmem
  have hvalue : c.recovered.get? s.key = some value.recovered := by
    rw [Context.get?_recovered]
    exact congrArg (Option.map Value.recovered) hv
  rw [record_of_container hi hw hc]
  refine Context.Shows.congr ?_ fun key => mem_elementKeys_of_container hi.separate hc
  rcases scopes?_of_recovers hv hr hcont with ⟨items, hbind, rfl, hitems⟩ | ⟨d, hbind, rfl, hrecord⟩
  · obtain rfl : scopes = items := Option.some.inj (hs.symm.trans hitems)
    rw [if_pos hbind, records_items (hi.single s hmem hbind) hgives]
    exact hown.insert hvalue
  · obtain rfl : scopes = [d] := Option.some.inj (hs.symm.trans hrecord)
    have hmerged : (concat ([d].map fun d => children.evaluate table d)).records table =
        (children.evaluate table d).records table := by
      simp [concat]
    have hscope : s.kind.binding ≠ .loop := by
      rw [hbind]
      exact Binding.noConfusion
    rw [if_neg hscope, hmerged, hgives d (by simp)]
    exact hown.insert hvalue

/-- **An element shows the keys of its directives.** -/
theorem shows_element {tag : PlainTag} {children rest : Forest} (ht : tag.WellFormed)
    (hi : Invertible table tag children) {c : Context}
    (hb : ∀ v ∈ (element tag children rest).visits table c, v.Binds table) (hbelow : children.ShowsKeys table) :
    ∃ g, (element tag children rest).evaluate table c = element (tag.carriedOut table c) g (rest.evaluate table c) ∧
      c.recovered.Shows (elementKeys table tag children) (record table (tag.carriedOut table c) g) := by
  have hhead : Visit.Binds table ⟨c, tag, children⟩ := hb _ self_mem_visits
  have hw : (tag.carriedOut table c).WellFormed :=
    PlainTag.wellFormed_carriedOut ht hi.directed.unmarked (staysWhole_of_recovers hhead.recovers)
  -- without a container, the keys on the tag are those of its own record
  have hplain : tag.container? table = none → ((tag.sites table).filter fun s => !s.isContainer) = tag.sites table := by
    intro hc
    exact List.filter_eq_self.2 fun s hs => by simpa using List.find?_eq_none.1 hc s hs
  rcases hi.fate hhead with ⟨s, hs, scopes, hc, hscopes, hf⟩ | ⟨s, hs, u, hc, hbind, -, hv, hf⟩ | ⟨hc, hno, hf⟩
  · refine ⟨concat (scopes.map fun d => children.evaluate table d), by simp only [evaluate, hf], ?_⟩
    exact shows_container ht hi hhead hc hscopes hbelow fun d hd v hv => hb v (mem_visits_of_scope hf hd hv)
  · refine ⟨.text u .nil, by simp only [evaluate, hf], ?_⟩
    -- content is alone of its kind, and what it filled holds no directive
    have hfilled : ∀ s' ∈ tag.sites table, ∀ u', s'.kind.binding = .content → c.get? s'.key = some (.text u') →
        (Forest.text u .nil).nodesAfter [] = Node.ofText u' := by
      intro s' hs' u' hbind' hv'
      have hkind : s'.kind = s.kind :=
        (DirectiveKind.eq_content hbind').trans (DirectiveKind.eq_content hbind).symm
      rw [ht.unique_site hs' hs hkind, hv] at hv'
      cases hv'
      rfl
    have hown := shows_own ht hi hw hhead _ hfilled
    rw [hplain hc] at hown
    rw [record_of_no_container hi hw hc]
    refine hown.congr fun key => ?_
    have hinert := (hi.body s hs (Site.isContent_iff.2 hbind)).2
    simp [elementKeys, hc, hinert.keys]
  · refine ⟨children.evaluate table c, by simp only [evaluate, hf], ?_⟩
    have hown := shows_own ht hi hw hhead ((children.evaluate table c).nodesAfter [])
      fun s' hs' u hbind _ => absurd hbind (hno s' hs')
    rw [hplain hc] at hown
    rw [record_of_no_container hi hw hc]
    have hall := hbelow c (fun v hv => hb v (mem_visits_of_walked hf hv)) _ _ hown
    refine hall.congr fun key => ?_
    simp only [elementKeys, hc, Option.isSome_none, Bool.false_eq_true, if_false, List.mem_append]
    exact or_comm

/-- **Evaluated forests show their keys,** in every record that binds them. -/
theorem showsKeys {f : Forest} (h : f.WellFormed) (hi : ∀ e ∈ f.elements, Invertible table e.1 e.2) :
    f.ShowsKeys table := by
  induction f with
  | nil => exact fun d _ keys r hr => hr
  | text s rest ih => exact ih h.2 hi
  | comment s rest ih => exact ih h.2.2 hi
  | element tag children rest ihc ihr =>
    obtain ⟨htag, -, hch, hrest⟩ := h
    simp only [elements, List.forall_mem_cons, List.forall_mem_append] at hi
    obtain ⟨hhead, hic, hir⟩ := hi
    intro d hb keys r hr
    obtain ⟨g, hg, hshows⟩ := shows_element htag hhead hb (ihc hch hic)
    have hb' : ∀ v ∈ rest.visits table d, v.Binds table := fun v hv => hb v (mem_visits_of_rest hv)
    have hmerged := ihr hrest hir d hb' _ _ (hr.merge hshows)
    rw [hg, records, List.foldl_cons]
    refine hmerged.congr fun key => ?_
    have hsplit : (element tag children rest).keys table = elementKeys table tag children ++ rest.keys table := by
      simp only [Forest.keys, elementKeys, List.append_assoc]
    simp only [hsplit, List.mem_append, or_assoc, or_comm]

/-- **Extraction undoes rendering:** the page gives back the context that it was rendered against, flags that
were off as empty text. -/
theorem extract_rendered (table : DirectiveTable) {f : Forest} (h : f.WellFormed)
    (hi : ∀ e ∈ f.elements, Invertible table e.1 e.2) {c : Context} (hc : Covers table c f)
    (hb : ∀ v ∈ f.visits table c, v.Binds table) :
    Extract.extractWith table (Render.renderWith table c f.written) = c.recovered := by
  have htidy : f.Tidy table := by
    refine ⟨h, fun t ht => ?_⟩
    rw [← map_elements] at ht
    obtain ⟨e, he, rfl⟩ := List.mem_map.1 ht
    exact (hi e he).directed.unmarked
  have hadmits : f.Admits table c := fun v hv => (hi _ (mem_elements_of_visit hv)).staysInPlace (hb v hv)
  rw [render_written h, extractWith_written (htidy.evaluate hadmits).wellFormed]
  exact (showsKeys h hi).covered hb hc

/-- A list of tasks, and a card with a name. -/
def taskPage : Forest :=
  .element ⟨"div", [("data-nyanClass", some "look")], false⟩
    (.element ⟨"ul", [("data-nyanLoop", some "tasks")], false⟩
      (.text " " (.element ⟨"li", [("data-nyanChecked", some "done"), ("data-nyanString", some "label")], false⟩
        (.text "-" .nil) .nil))
      (.element ⟨"p", [("data-nyanHtml", some "card")], false⟩
        (.element ⟨"b", [("data-nyanString", some "name")], false⟩ .nil .nil) .nil)) .nil

/-- Two tasks, the first one done. -/
def twoTasks : Context :=
  .ofList [("look", .text "wide"), ("card", .record (.ofList [("name", .text "today")])),
    ("tasks", .list [.ofList [("label", .text "first"), ("done", .flag true)],
      .ofList [("label", .text "second"), ("done", .flag false)]])]

theorem extract_rendered_taskPage :
    (taskPage.WellFormed ∧ (∀ e ∈ taskPage.elements, Invertible .standard e.1 e.2) ∧
      Covers .standard twoTasks taskPage ∧ ∀ v ∈ taskPage.visits .standard twoTasks, v.Binds .standard) ∧
    Extract.extractWith .standard (Render.renderWith .standard twoTasks taskPage.written) =
      .ofList [("look", .text "wide"), ("card", .record (.ofList [("name", .text "today")])),
        ("tasks", .list [.ofList [("label", .text "first"), ("done", .flag true)],
          .ofList [("label", .text "second"), ("done", .text "")]])] := by
  have hwell : taskPage.WellFormed := by decide +kernel
  have hinvertible : ∀ e ∈ taskPage.elements, Invertible .standard e.1 e.2 := by decide +kernel
  have hcovers : Covers .standard twoTasks taskPage := by decide +kernel
  have hbinds : ∀ v ∈ taskPage.visits .standard twoTasks, v.Binds .standard := by decide +kernel
  refine ⟨⟨hwell, hinvertible, hcovers, hbinds⟩, ?_⟩
  rw [extract_rendered .standard hwell hinvertible hcovers hbinds]
  rfl

end Forest

end MarkupLens
