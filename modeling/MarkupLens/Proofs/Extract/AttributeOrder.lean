/-
The order of the attributes on a tag. Two templates that differ in nothing
else (`Forest.Reordered`) are rendered to pages that again differ in nothing
else (`Reordered.evaluate`): with distinct names on a tag, its directives are
the same up to order, and the one that binds its content or makes it a
container is the same directive, if there is at most one container. A parsed
tag keeps its attributes by name, so the two pages have one tree
(`parse_reordered`).
-/
import MarkupLens.Proofs.Extract.Marks

namespace MarkupLens

open Markup (attributesOf)

variable {table : DirectiveTable} {c : Context}

/-- The only member of a kind is found wherever it stands. -/
theorem find?_perm {α : Type} {p : α → Bool} {l m : List α} (h : l.Perm m)
    (hone : ∀ a ∈ l, ∀ b ∈ l, p a = true → p b = true → a = b) : l.find? p = m.find? p := by
  cases hl : l.find? p with
  | none =>
    have hnone : m.find? p = none := List.find?_eq_none.2 fun a ha => List.find?_eq_none.1 hl a (h.mem_iff.2 ha)
    exact hnone.symm
  | some a =>
    have ha := List.mem_of_find?_eq_some hl
    cases hm : m.find? p with
    | none => exact absurd (List.find?_some hl) (List.find?_eq_none.1 hm a (h.mem_iff.1 ha))
    | some b =>
      have hb := h.mem_iff.2 (List.mem_of_find?_eq_some hm)
      rw [hone a ha b hb (List.find?_some hl) (List.find?_some hm)]

/-! ## One tag -/

namespace PlainTag

/-- No two directives on the tag make it a container. -/
def SingleContainer (table : DirectiveTable) (t : PlainTag) : Prop :=
  ∀ s ∈ t.sites table, ∀ s' ∈ t.sites table, s.isContainer = true → s'.isContainer = true → s = s'

instance (table : DirectiveTable) (t : PlainTag) : Decidable (t.SingleContainer table) :=
  inferInstanceAs (Decidable (∀ s ∈ t.sites table, ∀ s' ∈ t.sites table,
    s.isContainer = true → s'.isContainer = true → s = s'))

/-- The same tag but for the order of its attributes. -/
structure Reordered (t u : PlainTag) : Prop where
  name : t.name = u.name
  slash : t.slash = u.slash
  attributes : t.attributes.Perm u.attributes

namespace Reordered

variable {t u : PlainTag} (h : t.Reordered u)

include h

theorem hasBody : t.hasBody = u.hasBody := by rw [PlainTag.hasBody, PlainTag.hasBody, h.name, h.slash]

theorem sites : (t.sites table).Perm (u.sites table) := h.attributes.filterMap _

theorem wellFormed (hw : t.WellFormed) : u.WellFormed where
  letter := h.name ▸ hw.letter
  name := h.name ▸ hw.name
  names a ha := hw.names a (h.attributes.mem_iff.2 ha)
  values a ha := hw.values a (h.attributes.mem_iff.2 ha)
  distinct := (h.attributes.map (·.1)).nodup_iff.1 hw.distinct

theorem container? (hs : t.SingleContainer table) : t.container? table = u.container? table :=
  find?_perm h.sites hs

theorem content? (hw : t.WellFormed) : t.content? table = u.content? table := by
  refine Option.ext fun s => ?_
  rw [content?_eq_some hw, content?_eq_some (h.wellFormed hw), h.sites.mem_iff]

theorem attributeAfter (hs : t.SingleContainer table) (a : Text × Option Text) :
    t.attributeAfter table c a = u.attributeAfter table c a := by
  have hdriven : (t.driven table).Perm (u.driven table) := h.sites.filterMap _
  rw [PlainTag.attributeAfter, PlainTag.attributeAfter, h.container? hs, hdriven.any_eq]

theorem carriedOut (hs : t.SingleContainer table) (c : Context) :
    (t.carriedOut table c).Reordered (u.carriedOut table c) where
  name := h.name
  slash := h.slash
  attributes := by
    rw [PlainTag.carriedOut, PlainTag.carriedOut, funext (h.attributeAfter hs)]
    exact h.attributes.flatMap_right _

/-- **By name, the attributes are the same.** -/
theorem attributesOf (hw : t.WellFormed) : attributesOf t.opened = attributesOf u.opened := by
  refine Keyed.Sorted.ext (Markup.sorted_attributesOf _) (Markup.sorted_attributesOf _) fun name => ?_
  rw [lookup_attributesOf, lookup_attributesOf]
  refine Option.ext fun v => ?_
  rw [Keyed.lookup_eq_some_iff hw.distinct, Keyed.lookup_eq_some_iff (h.wellFormed hw).distinct, h.attributes.mem_iff]

end Reordered

end PlainTag

/-! ## Templates -/

namespace Forest

/-- The same forest but for the order of the attributes on its tags. -/
inductive Reordered : Forest → Forest → Prop where
  | nil : Reordered .nil .nil
  | text (s : Text) {f g : Forest} : Reordered f g → Reordered (.text s f) (.text s g)
  | comment (s : Text) {f g : Forest} : Reordered f g → Reordered (.comment s f) (.comment s g)
  | element {t u : PlainTag} {f g rest more : Forest} :
    t.Reordered u → Reordered f g → Reordered rest more → Reordered (.element t f rest) (.element u g more)

namespace Reordered

variable {f g : Forest}

theorem refl (f : Forest) : f.Reordered f := by
  induction f with
  | nil => exact .nil
  | text s rest ih => exact .text s ih
  | comment s rest ih => exact .comment s ih
  | element tag children rest ihc ihr => exact .element ⟨rfl, rfl, .refl _⟩ ihc ihr

theorem append {f' g' : Forest} (h : f.Reordered g) (h' : f'.Reordered g') : (f ++ f').Reordered (g ++ g') := by
  induction h with
  | nil => exact h'
  | text s _ ih => exact .text s ih
  | comment s _ ih => exact .comment s ih
  | element ht hc _ _ ih => exact .element ht hc ih

theorem concat_map {α : Type} {F G : α → Forest} (h : ∀ a, (F a).Reordered (G a)) (l : List α) :
    (concat (l.map F)).Reordered (concat (l.map G)) := by
  induction l with
  | nil => exact .nil
  | cons a l ih => exact (h a).append ih

theorem wellFormed (h : f.Reordered g) (hw : f.WellFormed) : g.WellFormed := by
  induction h with
  | nil => trivial
  | text s _ ih => exact ⟨hw.1, ih hw.2⟩
  | comment s _ ih => exact ⟨hw.1, hw.2.1, ih hw.2.2⟩
  | element ht hc _ ihc ihr =>
    obtain ⟨htag, hnil, hchildren, hrest⟩ := hw
    refine ⟨ht.wellFormed htag, fun hb => ?_, ihc hchildren, ihr hrest⟩
    rw [← ht.hasBody] at hb
    rw [hnil hb] at hc
    cases hc
    rfl

theorem exists_tag (h : f.Reordered g) : ∀ u ∈ g.tags, ∃ t ∈ f.tags, t.Reordered u := by
  induction h with
  | nil => exact fun u hu => by cases hu
  | text s _ ih | comment s _ ih => exact ih
  | @element t _ _ _ _ _ ht _ _ ihc ihr =>
    intro u hu
    simp only [tags, List.mem_cons, List.mem_append] at hu ⊢
    rcases hu with rfl | hu | hu
    · exact ⟨t, .inl rfl, ht⟩
    · obtain ⟨t', ht', hr⟩ := ihc u hu
      exact ⟨t', .inr (.inl ht'), hr⟩
    · obtain ⟨t', ht', hr⟩ := ihr u hu
      exact ⟨t', .inr (.inr ht'), hr⟩

theorem regular (h : f.Reordered g) (hf : f.Regular) : g.Regular where
  wellFormed := h.wellFormed hf.wellFormed
  fresh u hu a ha := by
    obtain ⟨t, ht, hr⟩ := h.exists_tag u hu
    exact hf.fresh t ht a (hr.attributes.mem_iff.2 ha)

theorem withoutBlanks (h : f.Reordered g) : f.withoutBlanks.Reordered g.withoutBlanks := by
  induction h with
  | nil => exact .nil
  | text s _ ih =>
    simp only [Forest.withoutBlanks]
    split
    · exact ih
    · exact .text s ih
  | comment s _ ih => exact .comment s ih
  | element ht hc _ _ ih => exact .element ht hc ih

theorem placeholder? (h : f.Reordered g) : f.placeholder? = g.placeholder? := by
  have hblanks := h.withoutBlanks
  unfold Forest.placeholder?
  generalize f.withoutBlanks = f', g.withoutBlanks = g' at hblanks
  cases hblanks with
  | nil => rfl
  | text s hrest => rfl
  | comment s hrest => cases hrest <;> rfl
  | element ht hc hrest => rfl

/-- An element has the same fate whatever the order. -/
theorem fate {t u : PlainTag} (ht : t.Reordered u) (hw : t.WellFormed) (hs : t.SingleContainer table)
    (h : f.Reordered g) (c : Context) : fate table c t f = fate table c u g := by
  simp only [Forest.fate, filling?, ht.container? hs, ht.content? hw, ht.hasBody, h.placeholder?]

/-- **Rendering commutes with reordering.** -/
theorem evaluate (h : f.Reordered g) (hw : f.WellFormed) (hs : ∀ t ∈ f.tags, t.SingleContainer table) (c : Context) :
    (f.evaluate table c).Reordered (g.evaluate table c) := by
  induction h generalizing c with
  | nil => exact .nil
  | text s _ ih => exact .text s (ih hw.2 hs c)
  | comment s _ ih => exact .comment s (ih hw.2.2 hs c)
  | @element t u f g rest more ht hc _ ihc ihr =>
    obtain ⟨htag, -, hchildren, hrest⟩ := hw
    have hsingle : t.SingleContainer table := hs t (by simp [tags])
    have hbelow := fun d => ihc hchildren (fun t ht => hs t (by simp [tags, ht])) d
    have hafter := ihr hrest (fun t ht => hs t (by simp [tags, ht])) c
    simp only [Forest.evaluate, ← fate ht htag hsingle hc c]
    rcases fate_cases table c t f with
      ⟨_, _, _, hf⟩ | ⟨_, scopes, _, _, _, hf⟩ | ⟨v, _, _, hf⟩ | ⟨_, _, hf⟩
    · simp only [hf]
      exact .element ht hc hafter
    · simp only [hf]
      exact .element (ht.carriedOut hsingle c) (concat_map hbelow scopes) hafter
    · simp only [hf]
      exact .element (ht.carriedOut hsingle c) (refl _) hafter
    · simp only [hf]
      exact .element (ht.carriedOut hsingle c) (hbelow c) hafter

/-- **Nodes do not show the order.** -/
theorem nodesAfter (h : f.Reordered g) (hw : f.WellFormed) (pending : Text) :
    f.nodesAfter pending = g.nodesAfter pending := by
  induction h generalizing pending with
  | nil => rfl
  | text s _ ih => exact ih hw.2 _
  | comment s _ ih => exact ih hw.2.2 _
  | element ht _ _ ihc ihr =>
    obtain ⟨htag, -, hchildren, hrest⟩ := hw
    simp only [Forest.nodesAfter, ht.name, ht.attributesOf htag, ihc hchildren, ihr hrest]

end Reordered

/-- **Attribute order does not matter.** Templates that differ in the order of the attributes on their tags are
rendered to pages with one tree, so the same is read off them. -/
theorem parse_reordered (table : DirectiveTable) {f g : Forest} (h : f.Regular) (hr : f.Reordered g)
    (hs : ∀ t ∈ f.tags, t.SingleContainer table) {c : Context} (hc : c.Plain) :
    Markup.parse (Render.renderWith table c f.written) = Markup.parse (Render.renderWith table c g.written) ∧
    ∀ table', Extract.extractWith table' (Render.renderWith table c f.written) =
      Extract.extractWith table' (Render.renderWith table c g.written) := by
  have hg : g.Regular := hr.regular h
  have hf' : (f.evaluate table c).Tidy table := h.tidy.evaluate (.of_plain h.wellFormed hc)
  have hg' : (g.evaluate table c).Tidy table := hg.tidy.evaluate (.of_plain hg.wellFormed hc)
  have hparse : Markup.parse (Render.renderWith table c f.written) =
      Markup.parse (Render.renderWith table c g.written) := by
    rw [render_written h.wellFormed, render_written hg.wellFormed, parse_written hf'.wellFormed,
      parse_written hg'.wellFormed]
    exact (hr.evaluate h.wellFormed hs c).nodesAfter hf'.wellFormed []
  refine ⟨hparse, fun table' => ?_⟩
  rw [Extract.extractWith, Extract.extractWith, hparse]

/-- The list of entries with the attributes of its tag in another order. -/
def turnedList : Forest :=
  .element ⟨"div", [("data-nyanId", some "anchor"), ("data-nyanLoop", some "rows"), ("id", some "old")], false⟩
    (.text " " (.element ⟨"div", [("data-nyanString", some "label")], false⟩ (.comment "no label" .nil) .nil)) .nil

theorem parse_reordered_turnedList :
    (nestedList.Regular ∧ nestedList.Reordered turnedList ∧ (∀ t ∈ nestedList.tags, t.SingleContainer .standard) ∧
      twoRows.Plain) ∧
    Render.renderWith .standard twoRows nestedList.written ≠ Render.renderWith .standard twoRows turnedList.written ∧
    Markup.parse (Render.renderWith .standard twoRows nestedList.written) =
      Markup.parse (Render.renderWith .standard twoRows turnedList.written) := by
  have hregular : nestedList.Regular := by decide +kernel
  have hreordered : nestedList.Reordered turnedList := .element ⟨rfl, rfl, by decide +kernel⟩ (.refl _) .nil
  have hsingle : ∀ t ∈ nestedList.tags, t.SingleContainer .standard := by decide +kernel
  have hplain : twoRows.Plain := by decide +kernel
  exact ⟨⟨hregular, hreordered, hsingle, hplain⟩, by decide +kernel,
    (parse_reordered .standard hregular hreordered hsingle hplain).1⟩

end Forest

end MarkupLens
