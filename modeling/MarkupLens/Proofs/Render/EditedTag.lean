/-
The open tag of a directive element, edited, whatever its style. What is
taken out leaves its neighbours side by side, so they have to end before each
other on their own (`Detaches`); what is put in reads off in any place, being
attributes with values in double quotes.

So under that condition the edited tag is one open tag again, with the name
and the body it had, and its attributes are those of the tag with the
directives carried out (`editTag_scanned`). Without it, what was in front of
an attribute that is taken out runs into what was behind it (`editTag_glued`).
-/
import MarkupLens.Proofs.Markup.Boundary
import MarkupLens.Proofs.Markup.SelfClosing
import MarkupLens.Proofs.Render.Regularity
import MarkupLens.Proofs.Render.TagSplicing

namespace MarkupLens

open Text (isSpace allBlank isBlank lastSlash)

/-! ## Ends of attributes -/

namespace Attribute

open OpenTag (isGapChar)

/-- The texts start with the same gap, and both go on with an attribute or both are the gap alone. -/
inductive SameGap : Text → Text → Prop where
  | alone (gap : Text) : SameGap gap gap
  | goesOn {gap : Text} {c d : Char} (r r' : Text) : (∀ e ∈ gap, isGapChar e = true) → isGapChar c = false →
    isGapChar d = false → SameGap (gap ++ c :: r) (gap ++ d :: r')

/-- What the gap leads to is no `=` of its own. -/
theorem head?_dropWhile_gap (gap : Text) {c : Char} (hc : isGapChar c = false) (r : Text) :
    ((gap ++ c :: r).dropWhile isSpace).head? = some '=' ↔ (gap.dropWhile isSpace).head? = some '=' := by
  obtain ⟨h1, -, h2⟩ := OpenTag.isSpace_of_not_isGapChar hc
  induction gap with
  | nil => simp [h1, h2]
  | cons d gap ih =>
    by_cases hd : isSpace d = true
    · simpa [hd] using ih
    · simp [hd]

/-- Texts that start with the same gap go on from a name alike. -/
theorem SameGap.endsName {s s' : Text} (h : SameGap s s') (hs : ∀ c ∈ s.head?, OpenTag.isNameChar c = false) :
    ∀ c ∈ s'.head?, OpenTag.isNameChar c = false := by
  cases h with
  | alone => exact hs
  | @goesOn gap c d r r' hgap hc hd =>
    cases gap with
    | cons e gap => exact hs
    | nil =>
      obtain ⟨h1, h2, -⟩ := OpenTag.isSpace_of_not_isGapChar hc
      have hname : OpenTag.isNameChar c = true := by simp [OpenTag.isNameChar, h1, h2]
      have hnot := hs c rfl
      rw [hname] at hnot
      cases hnot

/-- **Where an attribute ends** depends only on the gap behind it. -/
theorem EndsBefore.congr {a : Attribute} {s s' : Text} (h : a.EndsBefore s) (hs : SameGap s s') : a.EndsBefore s' := by
  cases hs with
  | alone => exact h
  | @goesOn gap c d r r' hgap hc hd =>
    obtain ⟨hc1, hc2, -⟩ := OpenTag.isSpace_of_not_isGapChar hc
    obtain ⟨hd1, -, -⟩ := OpenTag.isSpace_of_not_isGapChar hd
    have hhead : (gap ++ c :: r).head?.any isSpace = (gap ++ d :: r').head?.any isSpace := by
      cases gap <;> simp [hc1, hd1]
    have hslash : gap ++ c :: r ≠ ['/'] := by
      cases gap <;> simp [hc2]
    obtain ⟨g, n, v⟩ := a
    cases v with
    | none =>
      rcases h with ⟨h, -⟩ | h | ⟨h1, h2⟩
      · simp at h
      · exact absurd h hslash
      · refine .inr (.inr ⟨hhead ▸ h1, ?_⟩)
        rwa [ne_eq, head?_dropWhile_gap gap hd, ← head?_dropWhile_gap gap hc]
    | some v =>
      rcases h with h | h | ⟨h1, h2, h3⟩
      · exact .inl h
      · simp at h
      · exact .inr (.inr ⟨h1, h2, hhead ▸ h3⟩)

theorem Shaped.written_eq {a : Attribute} (h : a.Shaped) : ∃ c r, a.written = c :: r ∧ isGapChar c = false := by
  obtain ⟨c, more, hn, hc, -⟩ := h.name
  exact ⟨c, _, by rw [written, hn, List.cons_append], hc⟩

end Attribute

/-! ## What a directive gives way to -/

namespace Render

open SitedAttributes (isTakenOut leaving put edited behind)

variable {table : DirectiveTable} {c : Context} {names : List Text}

/-! ## Reading what is put in -/

open Attribute (SameGap)
open OpenTag (Readable writtenAttributes isGapChar)

theorem results_cases (c : Context) (s : Site) :
    s.results c = [(s.kind.marker, some s.key)] ∨ ∃ w, s.results c = [w, (s.kind.marker, some s.key)] := by
  simp only [Site.results, Site.writes]
  cases s.kind.binding with
  | content | loop | scope => exact .inl rfl
  | «attribute» name => exact .inr ⟨_, rfl⟩
  | boolean name =>
    dsimp only
    split
    · exact .inr ⟨_, rfl⟩
    · exact .inl rfl

/-- What comes in the place of a site is names, and values that end neither their quotes nor the tag. -/
def FitsTag (c : Context) (s : Site) : Prop :=
  ∀ b ∈ s.results c, PlainTag.IsName b.1 ∧ ∀ v ∈ b.2, '"' ∉ v ∧ '>' ∉ v

/-- What comes in the place of a site is read off, whatever follows. -/
theorem readable_behind {s : Site} (hs : FitsTag c s) {g : Text} (hg : ∀ d ∈ g, isGapChar d = true)
    {rest : List Attribute} {gap : Text} (hrest : Readable rest gap) :
    Readable (behind g ((s.results c).map PlainTag.toAttribute) ++ rest) gap := by
  have hshaped : ∀ b ∈ s.results c, (PlainTag.toAttribute b).Shaped := fun b hb =>
    PlainTag.shaped_toAttribute (hs b hb).1.isLegibleName fun v hv => ((hs b hb).2 v hv).1
  -- another gap changes neither the form of an attribute nor its end
  have hform : ∀ {a : Attribute}, a.Shaped → Attribute.Shaped { a with gap := g } := fun h => ⟨h.name, h.assigned⟩
  have hend : ∀ {a : Attribute} {r : Text}, a.EndsBefore r → Attribute.EndsBefore { a with gap := g } r := id
  have hspace : ∀ d ∈ [' '], isGapChar d = true := List.forall_mem_singleton.2 rfl
  have hmarker := PlainTag.endsBefore_quoted s.kind.marker s.key (writtenAttributes rest ++ gap)
  rcases results_cases c s with hr | ⟨w, hr⟩
  · rw [hr] at hshaped ⊢
    exact ⟨hg, hform (hshaped _ (by simp)), hend hmarker, hrest⟩
  · rw [hr] at hshaped ⊢
    have hm := hshaped (s.kind.marker, some s.key) (by simp)
    obtain ⟨d, r, hw, hd⟩ := hm.written_eq
    have htext : writtenAttributes (PlainTag.toAttribute (s.kind.marker, some s.key) :: rest) ++ gap =
        ' ' :: d :: (r ++ (writtenAttributes rest ++ gap)) := by
      rw [OpenTag.writtenAttributes_cons, List.append_assoc, List.append_assoc, hw]
      rfl
    have hfirst : (PlainTag.toAttribute w).EndsBefore
        (writtenAttributes (PlainTag.toAttribute (s.kind.marker, some s.key) :: rest) ++ gap) := by
      rw [htext]
      exact PlainTag.endsBefore_space hd _
    exact ⟨hg, hform (hshaped w (by simp)), hend hfirst, hspace, hm, hmarker, hrest⟩

theorem exists_behind {s : Site} (hs : FitsTag c s) (g : Text) (rest : List Attribute) :
    ∃ d r, writtenAttributes (behind g ((s.results c).map PlainTag.toAttribute) ++ rest) = g ++ d :: r ∧
      isGapChar d = false := by
  have hshaped : ∀ b ∈ s.results c, (PlainTag.toAttribute b).Shaped := fun b hb =>
    PlainTag.shaped_toAttribute (hs b hb).1.isLegibleName fun v hv => ((hs b hb).2 v hv).1
  obtain ⟨b, l, hr⟩ : ∃ b l, s.results c = b :: l := by
    rcases results_cases c s with hr | ⟨w, hr⟩
    · exact ⟨_, _, hr⟩
    · exact ⟨_, _, hr⟩
  obtain ⟨d, r, hw, hd⟩ := (hshaped b (by simp [hr])).written_eq
  have hw' : Attribute.written { PlainTag.toAttribute b with gap := g } = d :: r := hw
  refine ⟨d, r ++ writtenAttributes (l.map PlainTag.toAttribute ++ rest), ?_, hd⟩
  rw [hr, List.map_cons, behind, List.cons_append, OpenTag.writtenAttributes_cons, hw', List.append_assoc]
  rfl

/-- **The attributes edited are read off** again, and start with the gap that those left start with. -/
theorem readable_edited {attributes : SitedAttributes} {gap : Text} (hgap : ∀ d ∈ gap, isGapChar d = true)
    (hgaps : ∀ p ∈ attributes, (∀ d ∈ p.1.gap, isGapChar d = true) ∧ p.1.Shaped)
    (hs : ∀ s ∈ attributes.sites, FitsTag c s)
    (heach : OpenTag.EachEndsBefore ((attributes.leaving names).map (·.1)) gap) :
    Readable (attributes.edited c names) gap ∧
      SameGap (writtenAttributes ((attributes.leaving names).map (·.1)) ++ gap)
        (writtenAttributes (attributes.edited c names) ++ gap) := by
  induction attributes with
  | nil => exact ⟨hgap, .alone gap⟩
  | cons p rest ih =>
    obtain ⟨a, site⟩ := p
    obtain ⟨ha, hshaped⟩ := hgaps (a, site) (by simp)
    obtain ⟨d, r, hw, hd⟩ := hshaped.written_eq
    -- what is left of the list starts with this attribute, or is what is left of the others
    have hstart : ∀ l : List Attribute, writtenAttributes (a :: l) ++ gap =
        a.gap ++ d :: (r ++ (writtenAttributes l ++ gap)) := by
      intro l
      rw [OpenTag.writtenAttributes_cons, hw]
      simp
    have hs' : ∀ s ∈ SitedAttributes.sites rest, FitsTag c s := fun s hmem => hs s <| by
      simp only [SitedAttributes.sites, List.filterMap_cons] at hmem ⊢
      split
      · exact hmem
      · exact List.mem_cons_of_mem _ hmem
    cases site with
    | some s =>
      have hfits : FitsTag c s := hs s (by simp [SitedAttributes.sites])
      have hleft : leaving names ((a, some s) :: rest) = (a, some s) :: leaving names rest := rfl
      rw [hleft, List.map_cons] at heach ⊢
      obtain ⟨ih1, -⟩ := ih (fun q hq => hgaps q (by simp [hq])) hs' heach.2
      obtain ⟨e, r', hr', he⟩ := exists_behind hfits a.gap (edited c names rest)
      refine ⟨readable_behind hfits ha ih1, ?_⟩
      rw [hstart, SitedAttributes.edited_site, hr', List.append_assoc, List.cons_append]
      exact .goesOn _ _ ha hd he
    | none =>
      cases hn : names.any (Text.sameName a.name) with
      | false =>
        rw [SitedAttributes.leaving_kept hn, List.map_cons] at heach ⊢
        obtain ⟨ih1, ih2⟩ := ih (fun q hq => hgaps q (by simp [hq])) hs' heach.2
        rw [SitedAttributes.edited_kept hn]
        refine ⟨⟨ha, hshaped, heach.1.congr ih2, ih1⟩, ?_⟩
        rw [hstart, hstart]
        exact .goesOn _ _ ha hd hd
      | true =>
        rw [SitedAttributes.leaving_taken hn] at heach ⊢
        rw [SitedAttributes.edited_taken hn]
        exact ih (fun q hq => hgaps q (by simp [hq])) hs' heach

/-! ## The end of the tag -/

theorem allBlank_of_not_mem {s : Text} {d : Char} (hm : d ∈ s) (hd : isBlank d = false) : allBlank s = false := by
  cases hb : allBlank s with
  | false => rfl
  | true =>
    have := List.all_eq_true.1 hb d hm
    rw [hd] at this
    cases this

/-- What holds a directive, and what comes in its place, is not blank. -/
theorem allBlank_site {a : Attribute} {s : Site} (h : Site.of? table a = some s) : allBlank a.written = false := by
  have hn : a.name = s.kind.trigger := (Site.of?_eq_some.1 h).2.1
  refine allBlank_of_not_mem (d := 'd') ?_ (by decide)
  rw [Attribute.written, hn]
  exact List.mem_append_left _ (List.mem_append_left _ (by decide))

theorem allBlank_replacement (c : Context) (s : Site) : allBlank (replacement c s) = false := by
  refine allBlank_of_not_mem (d := '"') ?_ (by decide)
  simp only [replacement]
  split
  · simp
  · split <;> simp [DirectiveKind.markerFor]
  all_goals simp [DirectiveKind.markerFor]

/-- **Whether a text is blank** is the same before and after the edit, in front of what comes off. -/
theorem allBlank_edited {attributes : SitedAttributes} (hsound : attributes.Sound table)
    (hshaped : ∀ p ∈ attributes, p.1.written ≠ []) {last : Text} (hlast : last ≠ [])
    (h : ComesOff names last attributes) (gap : Text) :
    allBlank (last ++ (writtenAttributes (attributes.edited c names) ++ gap)) =
      allBlank (last ++ (writtenAttributes (attributes.map (·.1)) ++ gap)) := by
  induction attributes generalizing last with
  | nil => rfl
  | cons p rest ih =>
    obtain ⟨a, site⟩ := p
    obtain ⟨hhead, hrest⟩ := h
    have ih' := ih (fun q hq => hsound q (by simp [hq])) (fun q hq => hshaped q (by simp [hq]))
      (hshaped (a, site) (by simp)) hrest
    rw [List.map_cons, OpenTag.writtenAttributes_cons]
    simp only [Text.allBlank_append] at ih' ⊢
    cases site with
    | some s =>
      simp [SitedAttributes.edited_site, OpenTag.writtenAttributes_append, writtenAttributes_behind, allBlank_replacement,
        allBlank_site (hsound (a, some s) (by simp) s rfl)]
    | none =>
      cases hn : names.any (Text.sameName a.name) with
      | false =>
        rw [SitedAttributes.edited_kept hn, OpenTag.writtenAttributes_cons, Text.allBlank_append, Text.allBlank_append]
        simp only [Bool.and_assoc, ih']
      | true =>
        have hb := allBlank_of_endsBlank (hhead (by simp [isTakenOut, hn])).1 hlast
        simp [hb]

theorem closes_behind (c : Context) (s : Site) (g : Text) (rest : List Attribute) (gap : Text) :
    OpenTag.closes (behind g ((s.results c).map PlainTag.toAttribute) ++ rest) gap = OpenTag.closes rest gap := by
  have hmarker : ∀ g : Text, allBlank (Attribute.written ⟨g, s.kind.marker, some ⟨['='], ['"'], s.key, ['"']⟩⟩) = false :=
    fun g => allBlank_of_not_mem (d := 'd') (List.mem_append_left _ (List.mem_append_left _ (by decide))) (by decide)
  have hslash : lastSlash [' '] = false := by decide
  have hlast : ∀ g : Text, OpenTag.closes (⟨g, s.kind.marker, some ⟨['='], ['"'], s.key, ['"']⟩⟩ :: rest) gap =
      OpenTag.closes rest gap := by
    intro g
    rw [OpenTag.closes, OpenTag.closesItself_eq, Text.allBlank_append, hmarker, Bool.false_and, Bool.false_and,
      Bool.false_or]
  rcases results_cases c s with hr | ⟨w, hr⟩
  · rw [hr]
    exact hlast g
  · have hwritten : allBlank (writtenAttributes (PlainTag.toAttribute (s.kind.marker, some s.key) :: rest)) = false := by
      rw [OpenTag.writtenAttributes_cons, Text.allBlank_append, Text.allBlank_append, PlainTag.toAttribute, Option.map_some,
        hmarker, Bool.and_false, Bool.false_and]
    have hlist : behind g ([w, (s.kind.marker, some s.key)].map PlainTag.toAttribute) ++ rest =
        { PlainTag.toAttribute w with gap := g } :: PlainTag.toAttribute (s.kind.marker, some s.key) :: rest := rfl
    rw [hr, hlist, OpenTag.closes, OpenTag.closesItself_eq, Text.allBlank_append, Text.allBlank_append, hwritten,
      Bool.false_and, Bool.and_false, Bool.false_and, Bool.false_or]
    exact hlast [' ']

/-- **The edit leaves the slash that closes the tag** where it is, and brings none in. -/
theorem closes_edited {attributes : SitedAttributes} (hsound : attributes.Sound table)
    (hshaped : ∀ p ∈ attributes, p.1.written ≠ []) {last : Text} (h : ComesOff names last attributes) (gap : Text) :
    OpenTag.closes (attributes.edited c names) gap = OpenTag.closes (attributes.map (·.1)) gap := by
  induction attributes generalizing last with
  | nil => rfl
  | cons p rest ih =>
    obtain ⟨a, site⟩ := p
    obtain ⟨hhead, hrest⟩ := h
    have hsound' : SitedAttributes.Sound table rest := fun q hq => hsound q (by simp [hq])
    have hshaped' : ∀ q ∈ rest, q.1.written ≠ [] := fun q hq => hshaped q (by simp [hq])
    have ih' := ih hsound' hshaped' hrest
    have hblank := allBlank_edited (c := c) hsound' hshaped' (hshaped (a, site) (by simp)) hrest gap
    rw [List.map_cons, OpenTag.closes]
    cases site with
    | some s =>
      have ha := allBlank_site (hsound (a, some s) (by simp) s rfl)
      rw [SitedAttributes.edited_site, closes_behind, ih', OpenTag.closesItself_eq, Text.allBlank_append, ha]
      simp
    | none =>
      cases hn : names.any (Text.sameName a.name) with
      | false =>
        rw [SitedAttributes.edited_kept hn, OpenTag.closes, OpenTag.closesItself_eq, OpenTag.closesItself_eq, hblank, ih']
      | true =>
        have hgap := (hhead (by simp [isTakenOut, hn])).2
        rw [SitedAttributes.edited_taken hn, ih', OpenTag.closesItself_eq, Text.lastSlash_of_allBlank hgap]
        simp

/-! ## The edited tag -/

theorem not_mem_replacement {s : Site} (hs : FitsTag c s) : '>' ∉ replacement c s := by
  have hresults : '>' ∉ writtenAttributes ((s.results c).map PlainTag.toAttribute) := by
    simp only [writtenAttributes, List.mem_flatMap, List.mem_map, not_exists, not_and]
    rintro - ⟨⟨n, v⟩, hb, rfl⟩ hm
    obtain ⟨⟨-, hn⟩, hv⟩ := hs (n, v) hb
    have hname : '>' ∉ n := fun hm => (PlainTag.isNameChar_iff.1 (hn _ hm)).2.2.2.2.2.2 rfl
    cases v with
    | none => simp [PlainTag.toAttribute, Attribute.written, hname] at hm
    | some v => simp [PlainTag.toAttribute, Attribute.written, Assignment.written, hname, (hv v rfl).2] at hm
  rw [← PlainTag.replacement_eq] at hresults
  exact fun hm => hresults (List.mem_cons_of_mem _ hm)

theorem not_mem_edited {attributes : SitedAttributes} (hs : ∀ s ∈ attributes.sites, FitsTag c s)
    (h : '>' ∉ writtenAttributes (attributes.map (·.1))) : '>' ∉ writtenAttributes (attributes.edited c names) := by
  intro hm
  simp only [edited, writtenAttributes, List.mem_flatMap, List.flatMap_assoc] at hm
  obtain ⟨⟨a, site⟩, hp, hm⟩ := hm
  have ha : '>' ∉ a.gap ++ a.written := fun hm => h (List.mem_flatMap.2 ⟨a, List.mem_map_of_mem hp, hm⟩)
  rw [List.mem_append, not_or] at ha
  have hput : '>' ∈ writtenAttributes (put c names (a, site)) := by
    simpa [writtenAttributes, List.mem_flatMap] using hm
  cases site with
  | some s =>
    rw [put, writtenAttributes_behind, List.mem_append] at hput
    exact hput.elim ha.1 (not_mem_replacement (hs s (SitedAttributes.mem_sites.2 ⟨a, hp⟩)))
  | none =>
    cases hn : names.any (Text.sameName a.name) with
    | false => simp [put, hn, writtenAttributes, ha] at hput
    | true => simp [put, hn, writtenAttributes] at hput

theorem fitsTag_of_sound {attributes : SitedAttributes} (h : attributes.Sound table)
    (hc : ∀ e ∈ c.entries, ∀ u ∈ e.2.asText?, '"' ∉ u ∧ '>' ∉ u) : ∀ s ∈ attributes.sites, FitsTag c s := by
  intro s hs b hb
  obtain ⟨a, ha⟩ := SitedAttributes.mem_sites.1 hs
  obtain ⟨-, -, -, hword⟩ := Site.of?_eq_some.1 (h _ ha s rfl)
  rcases PlainTag.mem_results hb with ⟨htarget, hw⟩ | rfl
  · refine ⟨PlainTag.isName_target htarget, fun v hv => ?_⟩
    -- the value written is empty or the text of a bound value
    simp only [Site.writes] at hw
    cases hbind : s.kind.binding with
    | content | loop | scope => simp [hbind] at hw
    | boolean name =>
      simp only [hbind] at hw
      split at hw
      · rw [List.mem_singleton.1 hw] at hv
        cases hv
      · cases hw
    | «attribute» name =>
      simp only [hbind, List.mem_singleton] at hw
      subst hw
      obtain rfl : (s.text? c).getD [] = v := by simpa using hv
      cases ht : s.text? c with
      | none => simp
      | some u =>
        obtain ⟨w, hw, hu⟩ := Option.bind_eq_some_iff.1 ht
        exact hc (s.key, w) (Keyed.mem_of_lookup hw) u hu
  · refine ⟨PlainTag.isName_marker _, fun v hv => ?_⟩
    cases hv
    exact ⟨PlainTag.not_mem_of_isWord hword (by decide), PlainTag.not_mem_of_isWord hword (by decide)⟩

end Render

namespace Render

open SitedAttributes (isTakenOut)

variable {table : DirectiveTable} {c : Context} {t : Token} {rest : List Token} {tag : OpenTag}
  {attributes : SitedAttributes} {source : Text}

/-- **The text of an edited tag** is that of the tag with its attributes edited, and is scanned into it. -/
theorem scan_editTag (ht : t ∈ Markup.tokens source) (hplan : (plan table t rest).edited? = some (tag, attributes))
    (hfits : ∀ s ∈ attributes.sites, FitsTag c s) (hd : Detaches tag attributes) :
    ∃ u, editTag c tag attributes = '<' :: (u ++ ['>']) ∧ Markup.IsInside .openTag u ∧
      OpenTag.scan (editTag c tag attributes) =
        { tag with attributes := attributes.edited c (written attributes.sites) } := by
  obtain ⟨hk, rfl, rfl, -⟩ := edited?_plan hplan
  obtain ⟨u, htext, hu⟩ := Markup.isInside_of_mem ht (.inl hk)
  rw [hk, Markup.isInside_openTag] at hu
  have hsound := sound_sitesOf table (OpenTag.scan t.text) rest
  have hmap := map_fst_sitesOf table (OpenTag.scan t.text) rest
  obtain ⟨hopening, hclosing, hparts⟩ := OpenTag.scan_parts u
  obtain ⟨hread, hself⟩ := OpenTag.readable_scan t.text
  have hname : ∀ d ∈ (OpenTag.scan t.text).name, OpenTag.isNameChar d = true := fun d hm => List.mem_takeWhile_imp hm
  have hinside := OpenTag.head?_inside t.text
  rw [← htext] at hopening hclosing hparts
  generalize sitesOf table (OpenTag.scan t.text) rest = attributes at hd hsound hmap hfits ⊢
  generalize OpenTag.scan t.text = tag at hd hmap hopening hclosing hparts hread hself hname hinside ⊢
  obtain ⟨opening, name, l, gap, closing, selfClosing⟩ := tag
  simp only at hd hmap hopening hclosing hparts hread hself hname hinside
  subst hopening hclosing hmap
  obtain ⟨hblank, hhead, heach⟩ := hd
  simp only at hblank hhead heach
  obtain ⟨hgaps, hgap⟩ := hread.forms
  have hgaps' : ∀ p ∈ attributes, (∀ d ∈ p.1.gap, OpenTag.isGapChar d = true) ∧ p.1.Shaped := fun p hp =>
    hgaps p.1 (List.mem_map_of_mem hp)
  have hne : ∀ p ∈ attributes, p.1.written ≠ [] := by
    intro p hp
    obtain ⟨d, r, hw, -⟩ := (hgaps' p hp).2.written_eq
    simp [hw]
  obtain ⟨hreadable, hsame⟩ := readable_edited (c := c) hgap hgaps' hfits heach
  -- the name is that of a tag, as what stands behind it starts with no character of one
  obtain ⟨d, more, rfl, halpha⟩ := OpenTag.exists_letter hparts hu.1 hinside
  have hstop : '>' ∉ (d :: more) ++ (OpenTag.writtenAttributes (attributes.edited c (written attributes.sites)) ++ gap) := by
    have hu' := hu.2
    rw [hparts] at hu'
    simp only [List.mem_append, not_or] at hu' ⊢
    exact ⟨hu'.1, not_mem_edited hfits hu'.2.1, hu'.2.2⟩
  have htext : editTag c ⟨['<'], d :: more, attributes.map (·.1), gap, ['>'], selfClosing⟩ attributes =
      '<' :: ((d :: more) ++ (OpenTag.writtenAttributes (attributes.edited c (written attributes.sites)) ++ gap) ++ ['>']) := by
    rw [editTag, splice_edited hne hblank (fun hk => ⟨hk, by simp⟩)]
    simp
  refine ⟨_, htext, Markup.isInside_openTag.2 ⟨by simpa using halpha, hstop⟩, ?_⟩
  rw [htext, OpenTag.scan_eq hname (hsame.endsName hhead) hreadable, closes_edited hsound hne hblank, ← hself]

/-- Where nothing is written, nothing is taken out, and each attribute ends where it was read off. -/
theorem detaches_of_nothing_written (hplan : (plan table t rest).edited? = some (tag, attributes))
    (hnone : written attributes.sites = []) : Detaches tag attributes := by
  obtain ⟨-, rfl, rfl, -⟩ := edited?_plan hplan
  have hread := (OpenTag.readable_scan t.text).1
  have hmap := map_fst_sitesOf table (OpenTag.scan t.text) rest
  have hinside := OpenTag.head?_inside t.text
  have hleft : (sitesOf table (OpenTag.scan t.text) rest).leaving [] = sitesOf table (OpenTag.scan t.text) rest :=
    List.filter_eq_self.2 fun p _ => by simp [isTakenOut]
  have hcomes : ∀ (last : Text) (l : SitedAttributes), ComesOff [] last l := by
    intro last l
    induction l generalizing last with
    | nil => trivial
    | cons p l ih => exact ⟨by simp [isTakenOut], ih _⟩
  refine ⟨hnone ▸ hcomes _ _, ?_, ?_⟩
  · rwa [hnone, hleft, hmap]
  · rw [hnone, hleft, hmap]
    exact hread.eachEndsBefore

/-- **Editing the tag of a directive** leaves one open tag of the same name, with a body if it had one, whose attributes
are those of the tag with the directives carried out. -/
theorem editTag_scanned (ht : t ∈ Markup.tokens source) (hplan : (plan table t rest).edited? = some (tag, attributes))
    (hc : ∀ e ∈ c.entries, ∀ u ∈ e.2.asText?, '"' ∉ u ∧ '>' ∉ u) (hd : Detaches tag attributes) :
    tag = OpenTag.scan t.text ∧ attributes.map (·.1) = tag.attributes ∧
      Markup.tokens (editTag c tag attributes) = [⟨.openTag, editTag c tag attributes⟩] ∧
      (OpenTag.scan (editTag c tag attributes)).name = tag.name ∧
      (OpenTag.scan (editTag c tag attributes)).hasBody = tag.hasBody ∧
      (OpenTag.scan (editTag c tag attributes)).attributes.map (fun a => (a.name, a.value)) =
        attributes.carriedOut c := by
  obtain ⟨-, htag, hattributes, -⟩ := edited?_plan hplan
  have hsound : attributes.Sound table := hattributes ▸ sound_sitesOf table tag rest
  obtain ⟨u, htext, hu, hscan⟩ := scan_editTag ht hplan (fitsTag_of_sound hsound hc) hd
  refine ⟨htag, by rw [hattributes, map_fst_sitesOf], ?_, ?_, ?_, ?_⟩
  · have hnext := Markup.next?_tag hu []
    rw [List.append_nil, ← htext] at hnext
    rw [Markup.tokens_of_next? hnext, Markup.tokens_of_next?_none rfl]
  · rw [hscan]
  · rw [hscan]
    rfl
  · rw [hscan]
    exact SitedAttributes.map_edited c attributes

/-- A link whose class is written anew, between an attribute without quotes and one in single quotes. -/
def styledLink : Token := ⟨.openTag, "<a id=z class=\"x\" data-nyanClass=\"k\" href='#'>"⟩

/-- The sites of the link. -/
def styledLinkSites : SitedAttributes := sitesOf .standard (OpenTag.scan styledLink.text) []

theorem editTag_scanned_styledLink :
    (styledLink ∈ Markup.tokens styledLink.text ∧
      (plan .standard styledLink []).edited? = some (OpenTag.scan styledLink.text, styledLinkSites) ∧
      (∀ e ∈ (Context.ofList [("k", .text "v")]).entries, ∀ u ∈ e.2.asText?, '"' ∉ u ∧ '>' ∉ u) ∧
      Detaches (OpenTag.scan styledLink.text) styledLinkSites) ∧
    (OpenTag.scan (editTag (.ofList [("k", .text "v")]) (OpenTag.scan styledLink.text) styledLinkSites)).attributes.map
        (fun a => (a.name, a.value)) =
      ([("id", some "z"), ("class", some "v"), ("data-nyanDoneClass", some "k"), ("href", some "#")] :
        List (Text × Option Text)) := by
  have hmem : styledLink ∈ Markup.tokens styledLink.text := by decide +kernel
  have hplan : (plan .standard styledLink []).edited? = some (OpenTag.scan styledLink.text, styledLinkSites) := by
    decide +kernel
  have hplain : ∀ e ∈ (Context.ofList [("k", .text "v")]).entries, ∀ u ∈ e.2.asText?, '"' ∉ u ∧ '>' ∉ u := by
    decide +kernel
  have hdetaches : Detaches (OpenTag.scan styledLink.text) styledLinkSites := by decide +kernel
  refine ⟨⟨hmem, hplan, hplain, hdetaches⟩, ?_⟩
  rw [(editTag_scanned hmem hplan hplain hdetaches).2.2.2.2.2]
  decide +kernel

/-- An attribute that is taken out from between two others leaves them glued: here the tag gets another name, and the
`id` is lost. -/
theorem editTag_glued :
    ∃ attributes, (plan .standard ⟨.openTag, "<p class=\"x\"id=\"z\" data-nyanClass=\"k\">"⟩ []).edited? =
        some (OpenTag.scan "<p class=\"x\"id=\"z\" data-nyanClass=\"k\">", attributes) ∧
      (OpenTag.scan "<p class=\"x\"id=\"z\" data-nyanClass=\"k\">").name = "p".toList ∧
      editTag (.ofList [("k", .text "v")]) (OpenTag.scan "<p class=\"x\"id=\"z\" data-nyanClass=\"k\">") attributes =
        "<pid=\"z\" class=\"v\" data-nyanDoneClass=\"k\">".toList ∧
      (OpenTag.scan "<pid=\"z\" class=\"v\" data-nyanDoneClass=\"k\">").name = "pid=\"z\"".toList := by
  refine ⟨sitesOf .standard (OpenTag.scan "<p class=\"x\"id=\"z\" data-nyanClass=\"k\">") [], ?_⟩
  decide +kernel

end Render

end MarkupLens
