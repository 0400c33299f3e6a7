/-
Splicing the open tag of a directive element, whatever its style. A site
gives way to attributes in double quotes, behind the gap that stood in front
of it; an attribute of a name that is written is taken out. Where what is
taken out comes off with blanks, from behind what does not end in one
(`ComesOff`), the text that is spliced is the list of attributes edited
(`splice_edited`).
-/
import MarkupLens.Proofs.Markup.Scanning
import MarkupLens.Proofs.Render.Plans
import MarkupLens.Proofs.Render.TagRewriting

namespace MarkupLens

open Text (allBlank trimEnd isBlank)

/-! ## The attributes that an edit leaves -/

namespace SitedAttributes

variable (c : Context) (names : List Text)

/-- The attributes from the first gap on, with another first gap. -/
def behind (gap : Text) : List Attribute → List Attribute
  | [] => []
  | a :: rest => { a with gap } :: rest

/-- The attribute is taken out when attributes of those names are written. -/
def isTakenOut (p : Attribute × Option Site) : Bool := p.2.isNone && names.any (Text.sameName p.1.name)

/-- The attributes that are not taken out. -/
def leaving (attributes : SitedAttributes) : SitedAttributes := attributes.filter fun p => !isTakenOut names p

/-- The attributes that come in the place of one. -/
def put (p : Attribute × Option Site) : List Attribute :=
  match p.2 with
  | some s => behind p.1.gap ((s.results c).map PlainTag.toAttribute)
  | none => if names.any (Text.sameName p.1.name) then [] else [p.1]

/-- The attributes edited. -/
def edited (attributes : SitedAttributes) : List Attribute := attributes.flatMap (put c names)

variable {c names} {a : Attribute} {rest : SitedAttributes}

theorem edited_site (s : Site) : edited c names ((a, some s) :: rest) =
    behind a.gap ((s.results c).map PlainTag.toAttribute) ++ edited c names rest := rfl

theorem edited_kept (h : names.any (Text.sameName a.name) = false) :
    edited c names ((a, none) :: rest) = a :: edited c names rest := by
  simp [edited, put, h]

theorem edited_taken (h : names.any (Text.sameName a.name) = true) :
    edited c names ((a, none) :: rest) = edited c names rest := by
  simp [edited, put, h]

theorem leaving_kept (h : names.any (Text.sameName a.name) = false) :
    leaving names ((a, none) :: rest) = (a, none) :: leaving names rest := by
  simp [leaving, isTakenOut, h]

theorem leaving_taken (h : names.any (Text.sameName a.name) = true) :
    leaving names ((a, none) :: rest) = leaving names rest := by
  simp [leaving, isTakenOut, h]

end SitedAttributes

namespace OpenTag

/-- Each attribute ends before what follows it. -/
def EachEndsBefore : List Attribute → (gap : Text) → Prop
  | [], _ => True
  | a :: rest, gap => a.EndsBefore (writtenAttributes rest ++ gap) ∧ EachEndsBefore rest gap

instance decidableEachEndsBefore : (l : List Attribute) → (gap : Text) → Decidable (EachEndsBefore l gap)
  | [], _ => isTrue trivial
  | _ :: rest, gap => @instDecidableAnd _ _ _ (decidableEachEndsBefore rest gap)

theorem Readable.eachEndsBefore {l : List Attribute} {gap : Text} (h : Readable l gap) : EachEndsBefore l gap := by
  induction l with
  | nil => trivial
  | cons a l ih => exact ⟨h.2.2.1, ih h.2.2.2⟩

end OpenTag

namespace Render

open SitedAttributes (isTakenOut leaving put edited behind)

/-- What is taken out comes off with blanks, from behind what does not end in one; `last` is the text in front. -/
def ComesOff (names : List Text) : (last : Text) → SitedAttributes → Prop
  | _, [] => True
  | last, p :: rest =>
    (isTakenOut names p = true → endsBlank last = false ∧ allBlank p.1.gap = true) ∧ ComesOff names p.1.written rest

instance decidableComesOff (names : List Text) :
    (last : Text) → (attributes : SitedAttributes) → Decidable (ComesOff names last attributes)
  | _, [] => isTrue trivial
  | _, p :: rest => @instDecidableAnd _ _ _ (decidableComesOff names p.1.written rest)

/-- The attributes that the sites of a tag take out come off, and the neighbours that are left side by side end
before each other. -/
structure Detaches (tag : OpenTag) (attributes : SitedAttributes) : Prop where
  blank : ComesOff (written attributes.sites) (tag.opening ++ tag.name) attributes
  name : ∀ c ∈ (OpenTag.writtenAttributes ((attributes.leaving (written attributes.sites)).map (·.1)) ++ tag.gap).head?,
    OpenTag.isNameChar c = false
  each : OpenTag.EachEndsBefore ((attributes.leaving (written attributes.sites)).map (·.1)) tag.gap

instance (tag : OpenTag) (attributes : SitedAttributes) : Decidable (Detaches tag attributes) :=
  decidable_of_iff (ComesOff (written attributes.sites) (tag.opening ++ tag.name) attributes ∧
      (OpenTag.writtenAttributes ((attributes.leaving (written attributes.sites)).map (·.1)) ++ tag.gap).head?.all
        (fun c => !OpenTag.isNameChar c) = true ∧
      OpenTag.EachEndsBefore ((attributes.leaving (written attributes.sites)).map (·.1)) tag.gap)
    ⟨fun ⟨h1, h2, h3⟩ => ⟨h1, by simpa [Option.all_eq_true] using h2, h3⟩,
      fun ⟨h1, h2, h3⟩ => ⟨h1, by simpa [Option.all_eq_true] using h2, h3⟩⟩

variable {table : DirectiveTable} {c : Context} {names : List Text}

/-! ## Splicing -/

theorem writtenAttributes_behind (c : Context) (gap : Text) (s : Site) :
    OpenTag.writtenAttributes (behind gap ((s.results c).map PlainTag.toAttribute)) = gap ++ replacement c s := by
  have h := PlainTag.replacement_eq c s
  cases hr : (s.results c).map PlainTag.toAttribute with
  | nil => simp [Site.results] at hr
  | cons b rest =>
    have hgap : b.gap = [' '] := by
      have hb : b ∈ (s.results c).map PlainTag.toAttribute := by simp [hr]
      obtain ⟨x, -, rfl⟩ := List.mem_map.1 hb
      rfl
    rw [hr, OpenTag.writtenAttributes_cons, hgap] at h
    have htail := List.cons.inj h
    rw [behind, OpenTag.writtenAttributes_cons, htail.2, List.append_assoc]
    rfl

theorem trimEnd_of_endsBlank {s : Text} (h : endsBlank s = false) : trimEnd s = s := by
  rcases List.eq_nil_or_concat s with rfl | ⟨t, d, rfl⟩
  · rfl
  · rw [List.concat_eq_append] at h ⊢
    exact Text.trimEnd_concat t (by simpa [endsBlank] using h)

theorem allBlank_of_endsBlank {s : Text} (h : endsBlank s = false) (hs : s ≠ []) : allBlank s = false := by
  rcases List.eq_nil_or_concat s with rfl | ⟨t, d, rfl⟩
  · exact absurd rfl hs
  · rw [List.concat_eq_append] at h ⊢
    have hd : isBlank d = false := by simpa [endsBlank] using h
    simp [allBlank, hd]

theorem endsBlank_append {s : Text} (hs : s ≠ []) (t : Text) : endsBlank (t ++ s) = endsBlank s := by
  rcases List.eq_nil_or_concat s with rfl | ⟨u, d, rfl⟩
  · exact absurd rfl hs
  · simp [endsBlank]

/-- **Where what is taken out comes off,** the text that is spliced is the attributes edited. Behind a text that
does not end in a blank nothing is kept back by an earlier cut. -/
theorem splice_edited {attributes : SitedAttributes} (hshaped : ∀ p ∈ attributes, p.1.written ≠ []) {last kept : Text}
    {cut : Bool} (h : ComesOff names last attributes)
    (hkept : endsBlank last = false → endsBlank kept = false ∧ (cut = true → kept ≠ [])) (ending : Text) :
    splice cut kept ending (attributes.map fun p => (p.1, edit c names p.1 p.2)) =
      kept ++ OpenTag.writtenAttributes (attributes.edited c names) ++ ending := by
  induction attributes generalizing last kept cut with
  | nil => simp [splice, edited, OpenTag.writtenAttributes]
  | cons p rest ih =>
    obtain ⟨a, site⟩ := p
    obtain ⟨hhead, hrest⟩ := h
    have ha : a.written ≠ [] := hshaped (a, site) (by simp)
    have ih' : ∀ {kept : Text} {cut : Bool},
        (endsBlank a.written = false → endsBlank kept = false ∧ (cut = true → kept ≠ [])) →
        splice cut kept ending (rest.map fun p => (p.1, edit c names p.1 p.2)) =
          kept ++ OpenTag.writtenAttributes (edited c names rest) ++ ending :=
      ih (fun q hq => hshaped q (by simp [hq])) hrest
    rw [List.map_cons]
    dsimp only
    cases site with
    | some s =>
      have hedit : edit c names a (some s) = .replace (replacement c s) := rfl
      rw [hedit, splice, ih' fun hk => ⟨rfl, by simp [hk]⟩, SitedAttributes.edited_site, OpenTag.writtenAttributes_append,
        writtenAttributes_behind]
      simp
    | none =>
      cases hn : names.any (Text.sameName a.name) with
      | false =>
        have hedit : edit c names a none = .keep := by simp [edit, hn]
        rw [hedit, splice, ih' fun hk => ⟨by rw [endsBlank_append ha, hk], by simp [ha]⟩, SitedAttributes.edited_kept hn,
          OpenTag.writtenAttributes_cons]
        simp
      | true =>
        have hedit : edit c names a none = .remove := by simp [edit, hn]
        obtain ⟨hlast, hblank⟩ := hhead (by simp [isTakenOut, hn])
        obtain ⟨hkb, hcut⟩ := hkept hlast
        have hstays : (cut && allBlank (kept ++ a.gap)) = false := by
          cases cut with
          | false => rfl
          | true => rw [Text.allBlank_append, allBlank_of_endsBlank hkb (hcut rfl)]; rfl
        have htrim : trimEnd (kept ++ a.gap) = kept := by
          rw [Text.trimEnd_append_of_allBlank _ hblank, trimEnd_of_endsBlank hkb]
        simp only [hedit, splice, hstays, Bool.false_eq_true, if_false, htrim]
        rw [ih' fun hk => ⟨rfl, by simp [hk]⟩, SitedAttributes.edited_taken hn, List.nil_append, List.append_assoc]

end Render

namespace SitedAttributes

/-- The attributes of a tag with its sites carried out: each site gives way to what it writes and its marker, and
an attribute of a name that is written is left out. -/
def carriedOut (c : Context) (attributes : SitedAttributes) : List (Text × Option Text) :=
  attributes.flatMap fun p =>
    match p.2 with
    | some s => s.results c
    | none => if (Render.written attributes.sites).any (Text.sameName p.1.name) then [] else [(p.1.name, p.1.value)]

/-- Every directive that is carried out leaves its marker. -/
theorem marker_mem_carriedOut {attributes : SitedAttributes} {s : Site} (hs : s ∈ attributes.sites) (c : Context) :
    (s.kind.marker, some s.key) ∈ attributes.carriedOut c := by
  obtain ⟨a, ha⟩ := mem_sites.1 hs
  exact List.mem_flatMap.2 ⟨(a, some s), ha, List.mem_append_right _ (List.mem_singleton.2 rfl)⟩

theorem map_edited (c : Context) (attributes : SitedAttributes) :
    (attributes.edited c (Render.written attributes.sites)).map (fun a => (a.name, a.value)) = attributes.carriedOut c := by
  have hbehind : ∀ (g : Text) (l : List (Text × Option Text)),
      (behind g (l.map PlainTag.toAttribute)).map (fun a => (a.name, a.value)) = l := by
    intro g l
    have hall : ∀ l : List (Text × Option Text), (l.map PlainTag.toAttribute).map (fun a => (a.name, a.value)) = l := by
      intro l
      simp [Function.comp_def]
    cases l with
    | nil => rfl
    | cons b l => exact hall (b :: l)
  rw [edited, List.map_flatMap, carriedOut]
  congr 1
  funext p
  obtain ⟨a, site⟩ := p
  cases site with
  | some s => exact hbehind a.gap (s.results c)
  | none =>
    simp only [put]
    split <;> rfl

end SitedAttributes

end MarkupLens
