/-
Rendering some kinds of directives at a time. A table without containers may
be split in two: the two passes, whichever goes first, come to the page that
one pass with all of the table comes to (`render_independent`).

On a tag, the pass that goes second does not see what the first one did: what
was written is neither a directive nor named like anything that the second
pass writes, and the literal attributes that were taken out are not among its
directives (`carriedOut_carriedOut`). Content is of one kind and so belongs to
one of the two. If that is the first, the second finds a text where the
children were and leaves it; if it is the second, it finds the children as
evaluated, and they hold a placeholder exactly if they did before
(`placeholder?_evaluate`).
-/
import MarkupLens.Proofs.Render.Regularity
import Mathlib.Data.List.Basic
import Mathlib.Tactic.Tauto

namespace MarkupLens

variable {table first second : DirectiveTable} {c : Context}

/-- A table without containers, split in two. -/
structure DirectiveTable.Split (table first second : DirectiveTable) : Prop where
  mem : ∀ k, k ∈ table ↔ k ∈ first ∨ k ∈ second
  disjoint : ∀ k ∈ first, k ∉ second
  simple : ∀ k ∈ table, k.binding.isContainer = false

namespace DirectiveTable.Split

theorem symm (h : table.Split first second) : table.Split second first where
  mem k := (h.mem k).trans or_comm
  disjoint k hsecond hfirst := h.disjoint k hfirst hsecond
  simple := h.simple

theorem simple_first (h : table.Split first second) : ∀ k ∈ first, k.binding.isContainer = false :=
  fun k hk => h.simple k ((h.mem k).2 (.inl hk))

theorem simple_second (h : table.Split first second) : ∀ k ∈ second, k.binding.isContainer = false :=
  h.symm.simple_first

end DirectiveTable.Split

namespace PlainTag

variable {t : PlainTag}

/-! ## Tables without containers -/

section simple

variable (h : ∀ k ∈ table, k.binding.isContainer = false)

include h

theorem container?_of_simple : t.container? table = none := by
  refine List.find?_eq_none.2 fun s hs => ?_
  rw [Site.isContainer, h s.kind (mem_sites.1 hs).1]
  exact Bool.false_ne_true

theorem attributeAfter_site {a : Text × Option Text} {s : Site} (hs : site? table a = some s) :
    t.attributeAfter table c a = s.results c := by
  simp only [attributeAfter, container?_of_simple h, hs, Option.filter_some, carries, if_true]

end simple

theorem attributeAfter_literal {a : Text × Option Text} (hs : site? table a = none) :
    t.attributeAfter table c a = if (t.driven table).any (Text.sameName a.1) then [] else [a] := by
  simp only [attributeAfter, hs, Option.filter_none]

/-! ## One tag in two passes -/

section split

variable (h : table.Split first second)

include h

theorem mem_sites_split {s : Site} : s ∈ t.sites table ↔ s ∈ t.sites first ∨ s ∈ t.sites second := by
  rw [mem_sites, mem_sites, mem_sites, h.mem, or_and_right]

theorem site?_of_first {a : Text × Option Text} {s : Site} (hs : site? first a = some s) :
    site? table a = some s ∧ site? second a = none := by
  obtain ⟨hmem, ha, hword⟩ := site?_eq_some.1 hs
  refine ⟨site?_eq_some.2 ⟨(h.mem _).2 (.inl hmem), ha, hword⟩, ?_⟩
  cases hs' : site? second a with
  | none => rfl
  | some s' =>
    obtain ⟨hmem', ha', -⟩ := site?_eq_some.1 hs'
    have hkind : s.kind = s'.kind := DirectiveKind.trigger_inj (Prod.mk.inj (ha.symm.trans ha')).1
    exact absurd (hkind ▸ hmem') (h.disjoint _ hmem)

theorem site?_of_not_first {a : Text × Option Text} (hs : site? first a = none) : site? table a = site? second a := by
  refine Option.ext fun s => ?_
  rw [site?_eq_some, site?_eq_some, h.mem]
  have hnot : ¬ (s.kind ∈ first ∧ a = (s.kind.trigger, some s.key) ∧ Text.isWord s.key = true) := by
    rw [← site?_eq_some, hs]
    simp
  tauto

theorem any_driven_split (p : Text → Bool) :
    (t.driven table).any p = ((t.driven first).any p || (t.driven second).any p) := by
  rw [Bool.eq_iff_iff, Bool.or_eq_true, List.any_eq_true, List.any_eq_true, List.any_eq_true]
  simp only [driven, List.mem_filterMap, mem_sites_split h]
  constructor
  · rintro ⟨name, ⟨s, hs | hs, hn⟩, hp⟩
    · exact .inl ⟨name, ⟨s, hs, hn⟩, hp⟩
    · exact .inr ⟨name, ⟨s, hs, hn⟩, hp⟩
  · rintro (⟨name, ⟨s, hs, hn⟩, hp⟩ | ⟨name, ⟨s, hs, hn⟩, hp⟩)
    · exact ⟨name, ⟨s, .inl hs, hn⟩, hp⟩
    · exact ⟨name, ⟨s, .inr hs, hn⟩, hp⟩

/-- The first pass leaves the directives of the second. -/
theorem sites_carriedOut_first (c : Context) : (t.carriedOut first c).sites second = t.sites second := by
  have hone : ∀ a, (t.attributeAfter first c a).filterMap (site? second) = (site? second a).toList := by
    intro a
    cases hs : site? first a with
    | some s =>
      have hnone : (s.results c).filterMap (site? second) = [] := List.filterMap_eq_nil_iff.2 fun b hb => site?_results hb
      rw [attributeAfter_site h.simple_first hs, hnone, (site?_of_first h hs).2, Option.toList_none]
    | none =>
      rw [attributeAfter_literal hs]
      cases hs' : site? second a with
      | some s' => simp [any_driven_of_site? hs', hs']
      | none => split <;> simp [hs']
  rw [sites, carriedOut, List.filterMap_flatMap, funext hone, sites, List.filterMap_eq_flatMap_toList]

theorem content?_carriedOut_first (c : Context) : (t.carriedOut first c).content? second = t.content? second := by
  rw [content?, sites_carriedOut_first h, content?]

theorem driven_carriedOut_first (c : Context) : (t.carriedOut first c).driven second = t.driven second := by
  rw [driven, sites_carriedOut_first h, driven]

/-- Nothing that the first pass writes is taken out by the second. -/
theorem any_driven_results {u : PlainTag} {s : Site} (hs : s.kind ∈ first) {b : Text × Option Text}
    (hb : b ∈ s.results c) : (u.driven second).any (Text.sameName b.1) = false := by
  rw [List.any_eq_false]
  intro name hname hsame
  obtain ⟨s', hs', htarget⟩ := List.mem_filterMap.1 hname
  rcases mem_results hb with ⟨ht, -⟩ | rfl
  · have hkind := DirectiveKind.eq_of_sameName_target ht htarget hsame
    exact h.disjoint _ hs (hkind ▸ (mem_sites.1 hs').1)
  · rw [DirectiveKind.sameName_marker_target htarget] at hsame
    cases hsame

/-- What a directive of the first pass gives way to is neither a directive of the second nor taken out by it. -/
theorem flatMap_results (u : PlainTag) {s : Site} (hs : s.kind ∈ first) (c : Context) :
    (s.results c).flatMap (u.attributeAfter second c) = s.results c := by
  have hkept : ∀ b ∈ s.results c, u.attributeAfter second c b = [b] := by
    intro b hb
    rw [attributeAfter_literal (site?_results hb), any_driven_results h hs hb, if_neg Bool.false_ne_true]
  rw [List.flatMap_congr hkept, List.flatMap_singleton']

/-- What two passes make of an attribute is what one makes of it. -/
theorem flatMap_attributeAfter (c : Context) (a : Text × Option Text) :
    (t.attributeAfter first c a).flatMap ((t.carriedOut first c).attributeAfter second c) =
      t.attributeAfter table c a := by
  cases hs : site? first a with
  | some s =>
    rw [attributeAfter_site h.simple_first hs, flatMap_results h _ (site?_eq_some.1 hs).1,
      attributeAfter_site h.simple (site?_of_first h hs).1]
  | none =>
    have hall := site?_of_not_first h hs
    rw [attributeAfter_literal hs]
    cases hs' : site? second a with
    | some s =>
      rw [any_driven_of_site? hs', if_neg Bool.false_ne_true, List.flatMap_singleton,
        attributeAfter_site h.simple_second hs', attributeAfter_site h.simple (hall.trans hs')]
    | none =>
      rw [attributeAfter_literal (hall.trans hs'), any_driven_split h]
      cases (t.driven first).any (Text.sameName a.1) with
      | true => rfl
      | false =>
        rw [if_neg Bool.false_ne_true, List.flatMap_singleton, attributeAfter_literal hs', driven_carriedOut_first h,
          Bool.false_or]

/-- **Two passes over a tag** do what one does. -/
theorem carriedOut_carriedOut (c : Context) : (t.carriedOut first c).carriedOut second c = t.carriedOut table c := by
  have hattributes : (t.attributes.flatMap (t.attributeAfter first c)).flatMap
      ((t.carriedOut first c).attributeAfter second c) = t.attributes.flatMap (t.attributeAfter table c) := by
    rw [List.flatMap_assoc, funext (flatMap_attributeAfter h c)]
  exact congrArg (fun l => { t with attributes := l }) hattributes

end split

end PlainTag

namespace Forest

/-! ## Placeholders -/

theorem exists_evaluate_element (table : DirectiveTable) (c : Context) (tag : PlainTag) (children rest : Forest) :
    ∃ tag' children', (element tag children rest).evaluate table c = element tag' children' (rest.evaluate table c) := by
  rw [evaluate]
  split <;> exact ⟨_, _, rfl⟩

theorem withoutBlanks_evaluate (f : Forest) (c : Context) :
    (f.evaluate table c).withoutBlanks = f.withoutBlanks.evaluate table c := by
  induction f with
  | nil => rfl
  | text s rest ih =>
    simp only [evaluate, withoutBlanks]
    split <;> simp only [evaluate, ih]
  | comment s rest ih => simp only [evaluate, withoutBlanks, ih]
  | element tag children rest _ ih =>
    simp only [withoutBlanks, evaluate]
    split <;> simp only [withoutBlanks, ih]

/-- **Evaluation neither makes a placeholder nor takes one away.** -/
theorem placeholder?_evaluate (f : Forest) (c : Context) : (f.evaluate table c).placeholder? = f.placeholder? := by
  rw [placeholder?, withoutBlanks_evaluate, placeholder?]
  cases f.withoutBlanks with
  | nil | text s rest => rfl
  | comment s rest =>
    cases rest with
    | nil | text u more | comment u more => rfl
    | element tag children more =>
      obtain ⟨tag', children', he⟩ := exists_evaluate_element table c tag children more
      rw [evaluate, he]
  | element tag children rest =>
    obtain ⟨tag', children', he⟩ := exists_evaluate_element table c tag children rest
    rw [he]

/-! ## One element in two passes -/

section split

variable {tag : PlainTag} (h : table.Split first second)

include h

theorem content?_of_first (hw : tag.WellFormed) {s : Site} (hs : tag.content? first = some s) :
    tag.content? table = some s ∧ tag.content? second = none := by
  obtain ⟨hmem, hcontent⟩ := (PlainTag.content?_eq_some hw).1 hs
  refine ⟨(PlainTag.content?_eq_some hw).2 ⟨(PlainTag.mem_sites_split h).2 (.inl hmem), hcontent⟩, ?_⟩
  cases hs' : tag.content? second with
  | none => rfl
  | some s' =>
    -- it would be the same directive, of a kind that is in one of the tables only
    obtain ⟨hmem', hcontent'⟩ := (PlainTag.content?_eq_some hw).1 hs'
    have hkind : s.kind = s'.kind := (Site.kind_of_isContent hcontent).trans (Site.kind_of_isContent hcontent').symm
    exact absurd (hkind ▸ (PlainTag.mem_sites.1 hmem').1) (h.disjoint _ (PlainTag.mem_sites.1 hmem).1)

theorem content?_of_not_first (hw : tag.WellFormed) (hs : tag.content? first = none) :
    tag.content? table = tag.content? second := by
  refine Option.ext fun s => ?_
  have hnot : ¬ (s ∈ tag.sites first ∧ s.isContent = true) := by
    rw [← PlainTag.content?_eq_some hw, hs]
    simp
  rw [PlainTag.content?_eq_some hw, PlainTag.content?_eq_some hw, PlainTag.mem_sites_split h]
  tauto

/-- What takes the place of the children comes from one of the passes. -/
theorem filling?_split (hw : tag.WellFormed) (children : Forest) :
    filling? table c tag children = (filling? first c tag children).or (filling? second c tag children) := by
  unfold filling?
  cases tag.hasBody with
  | false => rfl
  | true =>
    cases hs : tag.content? first with
    | some s =>
      obtain ⟨hall, hsecond⟩ := content?_of_first h hw hs
      simp [hall, hsecond]
    | none => simp [content?_of_not_first h hw hs]

/-- Children that the first pass put a text in the place of are no business of the second. -/
theorem filling?_of_first (hw : tag.WellFormed) {children : Forest} {u : Text}
    (hfill : filling? first c tag children = some u) (g : Forest) :
    filling? second c (tag.carriedOut first c) g = none := by
  unfold filling? at hfill ⊢
  split at hfill
  · obtain ⟨s, hs, -⟩ := Option.bind_eq_some_iff.1 hfill
    rw [PlainTag.content?_carriedOut_first h, (content?_of_first h hw hs).2, Option.bind_none, ite_self]
  · cases hfill

/-- The second pass puts the same in the place of the children as if there had been no first one. -/
theorem filling?_second (children : Forest) :
    filling? second c (tag.carriedOut first c) (children.evaluate first c) = filling? second c tag children := by
  rw [filling?, filling?, hasBody_carriedOut, PlainTag.content?_carriedOut_first h, placeholder?_evaluate]

/-! ## Templates -/

/-- **Two passes evaluate a template** to what one does. -/
theorem evaluate_evaluate {f : Forest} (hw : f.WellFormed) (c : Context) :
    (f.evaluate first c).evaluate second c = f.evaluate table c := by
  have hfirst : ∀ t : PlainTag, t.container? first = none := fun _ => PlainTag.container?_of_simple h.simple_first
  have hsecond : ∀ t : PlainTag, t.container? second = none := fun _ => PlainTag.container?_of_simple h.simple_second
  have htable : ∀ t : PlainTag, t.container? table = none := fun _ => PlainTag.container?_of_simple h.simple
  induction f with
  | nil => rfl
  | text s rest ih => simp only [evaluate, ih hw.2]
  | comment s rest ih => simp only [evaluate, ih hw.2.2]
  | element tag children rest ihc ihr =>
    obtain ⟨htag, -, hchildren, hrest⟩ := hw
    have htwice := PlainTag.carriedOut_carriedOut (t := tag) h c
    have hsplit := filling?_split (c := c) h htag children
    cases hfill : filling? first c tag children with
    | some u =>
      -- the second pass walks the text that the first one put in
      rw [hfill, Option.some_or] at hsplit
      simp only [evaluate, fate_filled (hfirst _) hfill, fate_filled (htable _) hsplit,
        fate_walked (hsecond _) (filling?_of_first h htag hfill _), htwice, ihr hrest]
    | none =>
      rw [hfill, Option.none_or, ← filling?_second h] at hsplit
      cases hfill' : filling? second c (tag.carriedOut first c) (children.evaluate first c) with
      | some u =>
        -- what the first pass did below gives way in the second
        rw [hfill'] at hsplit
        simp only [evaluate, fate_walked (hfirst _) hfill, fate_filled (hsecond _) hfill', fate_filled (htable _) hsplit,
          htwice, ihr hrest]
      | none =>
        rw [hfill'] at hsplit
        simp only [evaluate, fate_walked (hfirst _) hfill, fate_walked (hsecond _) hfill', fate_walked (htable _) hsplit,
          htwice, ihc hchildren, ihr hrest]

theorem render_render {f : Forest} (hf : f.Regular) (hc : c.Plain) :
    Render.renderWith second c (Render.renderWith first c f.written) = Render.renderWith table c f.written := by
  have htidy : (f.evaluate first c).Tidy first := hf.tidy.evaluate (.of_plain hf.wellFormed hc)
  rw [render_written hf.wellFormed, render_written htidy.wellFormed, render_written hf.wellFormed,
    evaluate_evaluate h hf.wellFormed]

end split

/-- **Rendering is independent across kinds.** Where the kinds of a table are split in two, containers apart, two passes
come to the same page whichever part goes first, and to the page of one pass with all of the table. -/
theorem render_independent {table first second : DirectiveTable} (h : table.Split first second) {f : Forest}
    (hf : f.Regular) {c : Context} (hc : c.Plain) :
    Render.renderWith second c (Render.renderWith first c f.written) =
      Render.renderWith first c (Render.renderWith second c f.written) ∧
    Render.renderWith second c (Render.renderWith first c f.written) = Render.renderWith table c f.written :=
  ⟨(render_render h hf hc).trans (render_render h.symm hf hc).symm, render_render h hf hc⟩

/-- A switch in its label. The content of the label stays, as no caption is bound. -/
def toggleLabel : Forest :=
  .element ⟨"label", [("class", some "wide"), ("data-nyanClass", some "shade"), ("data-nyanString", some "caption")], false⟩
    (.element ⟨"input", [("data-nyanChecked", some "on"), ("data-nyanId", some "anchor")], true⟩ .nil (.text "off" .nil))
    .nil

/-- The switch is on, and the label is dark. -/
def darkSwitch : Context := .ofList [("on", .flag true), ("shade", .text "dark")]

theorem render_independent_toggleLabel :
    (DirectiveTable.Split [.checked, .content, .cssClass, .id] [.content, .id] [.cssClass, .checked] ∧
      toggleLabel.Regular ∧ darkSwitch.Plain) ∧
    Render.renderWith [.cssClass, .checked] darkSwitch
        (Render.renderWith [.content, .id] darkSwitch toggleLabel.written) =
      "<label class=\"dark\" data-nyanDoneClass=\"shade\" data-nyanDoneString=\"caption\">".toList ++
        "<input checked data-nyanDoneChecked=\"on\" id=\"\" data-nyanDoneId=\"anchor\"/>off</label>".toList := by
  have hsplit : DirectiveTable.Split [.checked, .content, .cssClass, .id] [.content, .id] [.cssClass, .checked] :=
    ⟨fun k => by cases k <;> decide, by decide, by decide⟩
  have hregular : toggleLabel.Regular := by decide +kernel
  have hplain : darkSwitch.Plain := by decide +kernel
  refine ⟨⟨hsplit, hregular, hplain⟩, (render_independent hsplit hregular hplain).2.trans ?_⟩
  rw [render_written hregular.wellFormed]
  decide +kernel

end Forest

end MarkupLens
