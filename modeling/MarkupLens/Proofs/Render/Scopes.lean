/-
Scopes. What a template shows of a context is what the context binds to the
keys of the template's own directives (`Forest.keys`); the keys of directives
under a container are read in the records of the container, and whatever the
context binds to them, the page is the same (`render_congr_keys`).

The induction is over the template with the two contexts side by side. A
directive reads a context at its key alone, so an element has the same fate in
both; if that is to be expanded, the records are those of one and the same
value, and the two contexts are done with.
-/
import MarkupLens.Proofs.Render.Regularity

namespace MarkupLens

variable {table : DirectiveTable} {c d : Context}

/-! ## One directive -/

namespace Site

variable {s : Site}

theorem text?_congr (h : c.get? s.key = d.get? s.key) : s.text? c = s.text? d := by rw [text?, text?, h]

theorem scopes?_congr (h : c.get? s.key = d.get? s.key) : s.scopes? c = s.scopes? d := by rw [scopes?, scopes?, h]

theorem writes_congr (h : c.get? s.key = d.get? s.key) : s.writes c = s.writes d := by
  rw [writes, writes, text?_congr h, h]

end Site

namespace Forest

/-- The keys that the directives of a forest read, those under a container apart. -/
def keys (table : DirectiveTable) : Forest → List Text
  | .nil => []
  | .text _ rest | .comment _ rest => keys table rest
  | .element tag children rest =>
    (tag.sites table).map (·.key) ++
      ((if (tag.container? table).isSome then [] else keys table children) ++ keys table rest)

/-! ## One element -/

section element

variable {tag : PlainTag} (h : ∀ s ∈ tag.sites table, c.get? s.key = d.get? s.key)

include h

theorem carriedOut_congr_keys : tag.carriedOut table c = tag.carriedOut table d :=
  PlainTag.carriedOut_congr fun s hs => Site.writes_congr (h s hs)

theorem filling?_congr_keys (children : Forest) : filling? table c tag children = filling? table d tag children := by
  unfold filling?
  cases hs : tag.content? table with
  | none => rfl
  | some s =>
    have hmem : s ∈ tag.sites table := List.mem_of_find?_eq_some hs
    simp only [Option.bind_some, Site.text?_congr (h s hmem)]

/-- What becomes of an element depends on a context only through what it binds to the keys on the tag. -/
theorem fate_congr_keys (children : Forest) : fate table c tag children = fate table d tag children := by
  unfold fate
  cases hs : tag.container? table with
  | none => simp only [filling?_congr_keys h]
  | some s =>
    have hmem : s ∈ tag.sites table := List.mem_of_find?_eq_some hs
    simp only [Site.scopes?_congr (h s hmem)]

end element

/-! ## Templates -/

theorem evaluate_congr_keys {f : Forest} (h : ∀ key ∈ f.keys table, c.get? key = d.get? key) :
    f.evaluate table c = f.evaluate table d := by
  induction f with
  | nil => rfl
  | text s rest ih | comment s rest ih => simp only [evaluate, ih h]
  | element tag children rest ihc ihr =>
    simp only [keys, List.mem_append] at h
    have htag : ∀ s ∈ tag.sites table, c.get? s.key = d.get? s.key :=
      fun s hs => h s.key (.inl (List.mem_map_of_mem hs))
    have hrest := ihr fun key hk => h key (.inr (.inr hk))
    simp only [evaluate, ← fate_congr_keys htag, ← carriedOut_congr_keys htag, ← hrest]
    rcases fate_cases table c tag children with
      ⟨_, _, _, hf⟩ | ⟨_, _, _, _, _, hf⟩ | ⟨_, _, _, hf⟩ | ⟨hc, _, hf⟩
    · simp only [hf]
    · simp only [hf]
    · simp only [hf]
    · -- children that are walked stand under no container
      have hchildren := ihc fun key hk => h key (.inr (.inl (by rwa [hc])))
      simp only [hf, hchildren]

/-- **Scopes do not leak.** Two contexts that bind the same to every key that a directive outside of all containers
reads give the same page, whatever else they bind, the keys that are used under a container included. -/
theorem render_congr_keys (table : DirectiveTable) {f : Forest} (h : f.WellFormed) {c d : Context}
    (hkeys : ∀ key ∈ f.keys table, c.get? key = d.get? key) :
    Render.renderWith table c f.written = Render.renderWith table d f.written := by
  rw [render_written h, render_written h, evaluate_congr_keys hkeys]

/-- The page binds the key of the entries as well, which they do not see. -/
theorem render_congr_keys_nestedList :
    (nestedList.WellFormed ∧
      ∀ key ∈ nestedList.keys .standard, twoRows.get? key = (twoRows.insert "label" (.text "page")).get? key) ∧
    twoRows ≠ twoRows.insert "label" (.text "page") ∧
    Render.renderWith .standard twoRows nestedList.written =
      Render.renderWith .standard (twoRows.insert "label" (.text "page")) nestedList.written := by
  have hwellFormed : nestedList.WellFormed := by decide +kernel
  have hkeys : ∀ key ∈ nestedList.keys .standard,
      twoRows.get? key = (twoRows.insert "label" (.text "page")).get? key := by decide +kernel
  exact ⟨⟨hwellFormed, hkeys⟩, by decide +kernel, render_congr_keys .standard hwellFormed hkeys⟩

end Forest

end MarkupLens
