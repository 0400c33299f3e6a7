/-
The sites of an open tag: its attributes that are triggers of the table and
whose value is a key. Of several containers on a tag only the first is a
site, and content on a container is none. An attribute that is no site stays
as written.
-/
import MarkupLens.Directive.Kind
import MarkupLens.Markup.Tag

namespace MarkupLens

/-- A directive at work: its kind and its key. -/
structure Site where
  kind : DirectiveKind
  key : Text
  deriving DecidableEq, Repr

/-- The attributes of a tag, each with its site if it is one. -/
abbrev SitedAttributes := List (Attribute × Option Site)

namespace Site

/-- The site that an attribute would be on its own. -/
def of? (table : DirectiveTable) (a : Attribute) : Option Site :=
  match table.byTrigger? a.name, a.value with
  | some kind, some key => if Text.isWord key then some ⟨kind, key⟩ else none
  | _, _ => none

theorem of?_eq_some {table : DirectiveTable} {a : Attribute} {s : Site} : of? table a = some s ↔
    s.kind ∈ table ∧ a.name = s.kind.trigger ∧ a.value = some s.key ∧ Text.isWord s.key = true := by
  obtain ⟨kind, key⟩ := s
  simp only [of?]
  cases hk : table.byTrigger? a.name with
  | none =>
    have hnot : ¬ (kind ∈ table ∧ kind.trigger = a.name) := by
      rw [← DirectiveTable.byTrigger?_eq_some, hk]
      simp
    simp only [reduceCtorEq, false_iff]
    rintro ⟨h1, h2, -⟩
    exact hnot ⟨h1, h2.symm⟩
  | some k =>
    obtain ⟨hmem, htrigger⟩ := DirectiveTable.byTrigger?_eq_some.1 hk
    cases hv : a.value with
    | none => simp
    | some w =>
      have hkind : kind = k ↔ a.name = kind.trigger :=
        ⟨fun he => by rw [he, htrigger], fun he => DirectiveKind.trigger_inj (by rw [htrigger, he])⟩
      simp only [Option.ite_none_right_eq_some, Option.some.injEq, Site.mk.injEq]
      constructor
      · rintro ⟨hw, rfl, rfl⟩
        exact ⟨hmem, htrigger.symm, rfl, hw⟩
      · rintro ⟨-, hn, rfl, hw⟩
        exact ⟨hw, (hkind.2 hn).symm, rfl⟩

/-- The site binds a container. -/
def isContainer (s : Site) : Bool := s.kind.binding.isContainer

/-- The site binds the content. -/
def isContent (s : Site) : Bool := s.kind.binding == .content

/-- The attributes with their sites; `taken` when a container came before. -/
def claim (table : DirectiveTable) : (taken : Bool) → List Attribute → SitedAttributes
  | _, [] => []
  | taken, a :: rest =>
    match of? table a with
    | none => (a, none) :: claim table taken rest
    | some s =>
      if s.isContainer then (a, if taken then none else some s) :: claim table true rest
      else (a, some s) :: claim table taken rest

end Site

namespace SitedAttributes

/-- The sites, in order. -/
def sites (attributes : SitedAttributes) : List Site := attributes.filterMap (·.2)

/-- The attributes with some sites given up. -/
def release (given : Site → Bool) (attributes : SitedAttributes) : SitedAttributes :=
  attributes.map fun p => (p.1, p.2.filter fun s => !given s)

/-- The container among the sites. -/
def container? (attributes : SitedAttributes) : Option Site := attributes.sites.find? Site.isContainer

/-- The content among the sites. -/
def content? (attributes : SitedAttributes) : Option Site := attributes.sites.find? Site.isContent

/-- The attributes of a tag with their sites. -/
def of (table : DirectiveTable) (tag : OpenTag) : SitedAttributes :=
  let claimed : SitedAttributes := Site.claim table false tag.attributes
  if claimed.container?.isSome then claimed.release Site.isContent else claimed

end SitedAttributes

end MarkupLens
