/-
The open tag of an element, edited: for a plain tag the walk's splicing of
texts is the replacement of attributes (`editTag_opened`). A directive that
is carried out gives way to what it writes and its marker, a literal
attribute of a name that is written goes with the space in front of it, and
all the rest stays.

The sites that the walk finds are taken from the left with a memory of the
container met before; as no two attributes of a plain tag share a name, that
is the same as looking at each attribute on its own once the first container
is known (`of_opened`).
-/
import MarkupLens.Proofs.Render.Evaluate
import MarkupLens.Render.Tag

namespace MarkupLens

open Text (allBlank trimEnd isBlank)

namespace PlainTag

variable {table : DirectiveTable}

/-! ## Sites -/

theorem site?_eq_some {a : Text × Option Text} {s : Site} : site? table a = some s ↔
    s.kind ∈ table ∧ a = (s.kind.trigger, some s.key) ∧ Text.isWord s.key = true := by
  rw [site?, Site.of?_eq_some, name_toAttribute, value_toAttribute, Prod.ext_iff, and_assoc]

/-- The attributes of a tag, each with the directive that is carried out at it. -/
def sited (table : DirectiveTable) (t : PlainTag) : SitedAttributes :=
  t.attributes.map fun a => (toAttribute a, (site? table a).filter (carries (t.container? table)))

theorem of?_toAttribute (a : Text × Option Text) : Site.of? table (toAttribute a) = site? table a := rfl

theorem claim_taken (l : List (Text × Option Text)) :
    Site.claim table true (l.map toAttribute) =
      l.map fun a => (toAttribute a, (site? table a).filter fun s => !s.isContainer) := by
  induction l with
  | nil => rfl
  | cons a l ih =>
    simp only [List.map_cons, Site.claim, of?_toAttribute]
    cases h : site? table a with
    | none => simp [ih]
    | some s => cases hc : s.isContainer <;> simp [ih, hc, Option.filter_some]

/-- With distinct names, a container is a site exactly if it is the first one. -/
theorem claim_eq {l : List (Text × Option Text)} (hd : (l.map (·.1)).Nodup) :
    Site.claim table false (l.map toAttribute) = l.map fun a => (toAttribute a, (site? table a).filter fun s =>
      !s.isContainer || (l.filterMap (site? table)).find? Site.isContainer == some s) := by
  induction l with
  | nil => rfl
  | cons a l ih =>
    simp only [List.map_cons, List.nodup_cons, List.mem_map, not_exists, not_and] at hd
    simp only [List.map_cons, Site.claim, of?_toAttribute]
    cases h : site? table a with
    | none => simp only [List.filterMap_cons, h, ih hd.2, Option.filter_none]
    | some s =>
      simp only [List.filterMap_cons, h, List.find?_cons, Option.filter_some]
      cases hc : s.isContainer with
      | false => simp only [Bool.false_eq_true, if_false, ih hd.2, Bool.not_false, Bool.true_or, if_true]
      | true =>
        simp only [if_true, Bool.false_eq_true, if_false, claim_taken, beq_self_eq_true, Bool.or_true,
          List.cons.injEq, true_and]
        refine List.map_congr_left fun b hb => ?_
        -- a later attribute with the same site would have the same name
        cases hs : site? table b with
        | none => rfl
        | some s' =>
          have hne : s' ≠ s := by
            rintro rfl
            have h1 := (site?_eq_some.1 h).2.1
            have h2 := (site?_eq_some.1 hs).2.1
            exact hd.1 b hb (by rw [h1, h2])
          have hne' : (some s == some s') = false := by simpa using fun he => hne he.symm
          simp only [Option.filter_some, hne', Bool.or_false]

/-- Taking out elements moves no first one that it leaves in. -/
theorem find?_filter_of_first {α : Type} {p q : α → Bool} {l : List α} (h : ∀ a, l.find? p = some a → q a = true) :
    (l.filter q).find? p = l.find? p := by
  induction l with
  | nil => rfl
  | cons a l ih =>
    simp only [List.find?_cons] at h ⊢
    cases hp : p a with
    | true => simp [h a (by simp [hp]), hp]
    | false =>
      have ih' := ih fun b hb => h b (by simp [hp, hb])
      cases hq : q a <;> simp [hq, hp, ih']

theorem sites_map_filter (q : Site → Bool) (l : List (Text × Option Text)) :
    SitedAttributes.sites (l.map fun a => (toAttribute a, (site? table a).filter q)) =
      (l.filterMap (site? table)).filter q := by
  induction l with
  | nil => rfl
  | cons a l ih =>
    simp only [SitedAttributes.sites, List.map_cons, List.filterMap_cons] at ih ⊢
    cases h : site? table a with
    | none => simpa using ih
    | some s => cases hq : q s <;> simp [Option.filter_some, hq, ih]

theorem sites_sited (t : PlainTag) : (t.sited table).sites = (t.sites table).filter (carries (t.container? table)) :=
  sites_map_filter _ _

theorem isContent_of_isContainer {s : Site} (h : s.isContainer = true) : s.isContent = false := by
  obtain ⟨kind, key⟩ := s
  cases kind <;> first | rfl | exact absurd h Bool.false_ne_true

theorem carries_container {t : PlainTag} {s : Site} (h : t.container? table = some s) :
    carries (t.container? table) s = true := by
  have hc : s.isContainer = true := List.find?_some h
  simp [h, carries, hc]

@[simp] theorem container?_sited (t : PlainTag) : (t.sited table).container? = t.container? table := by
  rw [SitedAttributes.container?, sites_sited]
  exact find?_filter_of_first fun s hs => carries_container hs

theorem content?_sited {t : PlainTag} (h : t.container? table = none) :
    (t.sited table).content? = t.content? table := by
  have hall : (t.sites table).filter (carries none) = t.sites table := List.filter_eq_self.2 fun _ _ => rfl
  rw [SitedAttributes.content?, sites_sited, h, hall]
  rfl

/-- **The sites of a plain tag** are the directives that are carried out on it. -/
theorem of_opened {t : PlainTag} (h : t.WellFormed) : SitedAttributes.of table t.opened = t.sited table := by
  have hclaim : Site.claim table false (t.attributes.map toAttribute) = _ := claim_eq h.distinct
  have hfirst : SitedAttributes.container? (Site.claim table false (t.attributes.map toAttribute)) =
      t.container? table := by
    rw [hclaim, SitedAttributes.container?, sites_map_filter]
    refine find?_filter_of_first fun s hs => ?_
    simp only [hs, beq_self_eq_true, Bool.or_true]
  have hof : SitedAttributes.of table t.opened =
      if (t.container? table).isSome then
        SitedAttributes.release Site.isContent (Site.claim table false (t.attributes.map toAttribute))
      else Site.claim table false (t.attributes.map toAttribute) := by
    rw [← hfirst]
    rfl
  rw [hof, hclaim]
  cases hc : t.container? table with
  | none =>
    simp only [Option.isSome_none, Bool.false_eq_true, if_false, sited, hc]
    refine List.map_congr_left fun a ha => ?_
    cases hs : site? table a with
    | none => rfl
    | some s =>
      -- no directive is a container, as there is no first one
      have hmem : s ∈ t.sites table := List.mem_filterMap.2 ⟨a, ha, hs⟩
      have hnot : s.isContainer = false := by simpa using List.find?_eq_none.1 hc s hmem
      simp [Option.filter_some, hnot, carries]
  | some first =>
    simp only [Option.isSome_some, if_true, SitedAttributes.release, List.map_map, sited, hc]
    refine List.map_congr_left fun a ha => ?_
    have hc' : (t.attributes.filterMap (site? table)).find? Site.isContainer = some first := hc
    cases hs : site? table a with
    | none => simp only [Function.comp_apply, hs, Option.filter_none]
    | some s =>
      simp only [Function.comp_apply, hs, Option.filter_some, hc', carries]
      by_cases hcont : s.isContainer = true
      · have hcc := isContent_of_isContainer hcont
        by_cases he : s = first
        · subst he
          simp [Option.filter_some, hcont, hcc]
        · simp [Ne.symm he, he, hcont]
      · by_cases hcc : s.isContent = true <;> simp [Option.filter_some, hcont, hcc]

/-! ## Splicing -/

/-- What an edit leaves of an attribute in the plain style, with the space in front of it. -/
def outcome : Attribute × Render.Edit → Text
  | (a, .keep) => ' ' :: a.written
  | (_, .replace s) => ' ' :: s
  | (_, .remove) => []

theorem trimEnd_append_attribute {a : Text × Option Text} (h : IsName a.1) (s : Text) :
    trimEnd (s ++ (toAttribute a).written) = s ++ (toAttribute a).written := by
  obtain ⟨u, c, he, hb, -⟩ := exists_last_attribute h
  rw [he, ← List.append_assoc]
  exact Text.trimEnd_concat _ hb

theorem endsBlank_attribute {a : Text × Option Text} (h : IsName a.1) :
    Render.endsBlank (toAttribute a).written = false := by
  obtain ⟨u, c, he, hb, -⟩ := exists_last_attribute h
  simp [Render.endsBlank, he, hb]

/-- Where no attribute ends in a blank and one space stands in front of each, every edit is made. -/
theorem splice_eq {l : List ((Text × Option Text) × Render.Edit)} (h : ∀ p ∈ l, IsName p.1.1) {kept : Text}
    (hk : trimEnd kept = kept) (ending : Text) :
    Render.splice false kept ending (l.map fun p => (toAttribute p.1, p.2)) =
      kept ++ l.flatMap (fun p => outcome (toAttribute p.1, p.2)) ++ ending := by
  induction l generalizing kept with
  | nil => simp [Render.splice]
  | cons p l ih =>
    obtain ⟨a, e⟩ := p
    have ha : IsName a.1 := h (a, e) (by simp)
    have ih' := fun {kept} (hk : trimEnd kept = kept) => ih (fun p hp => h p (by simp [hp])) hk
    cases e with
    | keep =>
      simp only [List.map_cons, Render.splice]
      rw [ih' (trimEnd_append_attribute ha _)]
      simp [outcome, toAttribute]
    | replace s =>
      simp only [List.map_cons, Render.splice, endsBlank_attribute ha]
      rw [ih' rfl]
      simp [outcome, toAttribute]
    | remove =>
      have hspace : trimEnd (kept ++ [' ']) = kept := by
        rw [Text.trimEnd_append_of_allBlank _ (by decide), hk]
      simp only [List.map_cons, Render.splice, endsBlank_attribute ha, Bool.false_and, Bool.false_eq_true, if_false]
      rw [ih' rfl]
      simp [outcome, toAttribute, hspace]

/-! ## Replacing attributes -/

theorem carries_of_target? {first : Option Site} {s : Site} {name : Text}
    (h : s.kind.binding.target? = some name) : carries first s = true := by
  obtain ⟨kind, key⟩ := s
  cases first with
  | none => rfl
  | some first => cases kind <;> first | rfl | cases h

theorem written_sited (t : PlainTag) : Render.written (t.sited table).sites = t.driven table := by
  rw [Render.written, sites_sited, List.filterMap_filter]
  congr 1
  funext s
  split
  · rfl
  · rename_i hnot
    cases hs : s.kind.binding.target? with
    | none => rfl
    | some name => exact absurd (carries_of_target? hs) hnot

theorem replacement_eq (c : Context) (s : Site) :
    ' ' :: Render.replacement c s = OpenTag.writtenAttributes ((s.results c).map toAttribute) := by
  have hmarker : ∀ n v : Text, (toAttribute (n, some v)).written = n ++ ('=' :: '"' :: (v ++ ['"'])) := by
    intro n v
    simp [toAttribute, Attribute.written, Assignment.written]
  have hbare : ∀ n : Text, (toAttribute (n, none)).written = n := by
    intro n
    simp [toAttribute, Attribute.written]
  have hgap : ∀ a, (toAttribute a).gap = [' '] := fun _ => rfl
  simp only [Render.replacement, Site.results, Site.writes, Site.text?]
  cases s.kind.binding with
  | boolean name =>
    simp only
    split <;> simp [OpenTag.writtenAttributes, DirectiveKind.markerFor, hmarker, hbare, hgap]
  | «attribute» name => simp [OpenTag.writtenAttributes, DirectiveKind.markerFor, hmarker, hgap]
  | content | loop | scope => simp [OpenTag.writtenAttributes, DirectiveKind.markerFor, hmarker, hgap]

theorem outcome_edit (c : Context) (t : PlainTag) (a : Text × Option Text) :
    outcome (toAttribute a, Render.edit c (t.driven table) (toAttribute a)
      ((site? table a).filter (carries (t.container? table)))) =
    OpenTag.writtenAttributes ((t.attributeAfter table c a).map toAttribute) := by
  unfold attributeAfter
  cases (site? table a).filter (carries (t.container? table)) with
  | some s => exact replacement_eq c s
  | none =>
    have hgap : (toAttribute a).gap = [' '] := rfl
    by_cases hd : (t.driven table).any (Text.sameName a.1) = true
    · simp only [Render.edit, name_toAttribute, hd, if_true]
      rfl
    · simp only [Render.edit, name_toAttribute, hd, Bool.false_eq_true, if_false]
      simp [outcome, OpenTag.writtenAttributes, hgap]

/-- **An edited tag** is the tag with its directives carried out. -/
theorem editTag_opened {t : PlainTag} (h : t.WellFormed) (c : Context) :
    Render.editTag c t.opened (t.sited table) = (t.carriedOut table c).written := by
  have hname : trimEnd ('<' :: t.name) = '<' :: t.name := by
    obtain ⟨s, d, he, hb, -⟩ := h.name.exists_last
    rw [he, ← List.cons_append]
    exact Text.trimEnd_concat _ hb
  have hlist : (t.sited table).map (fun p => (p.1, Render.edit c (t.driven table) p.1 p.2)) =
      (t.attributes.map fun a => (a, Render.edit c (t.driven table) (toAttribute a)
        ((site? table a).filter (carries (t.container? table))))).map fun p => (toAttribute p.1, p.2) := by
    simp [sited]
  have hkept : t.opened.opening ++ t.opened.name = '<' :: t.name := rfl
  rw [Render.editTag, written_sited, hlist, hkept, splice_eq _ hname]
  · simp only [List.flatMap_map, outcome_edit]
    simp [carriedOut, written, opened, OpenTag.written, OpenTag.writtenAttributes, List.flatMap_assoc, List.flatMap_map,
      List.map_flatMap]
  · intro p hp
    obtain ⟨a, ha, rfl⟩ := List.mem_map.1 hp
    exact h.names a ha

end PlainTag

end MarkupLens
