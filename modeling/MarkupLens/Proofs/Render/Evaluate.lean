/-
Rendering said on trees. What becomes of an element is its `Fate`: a
container whose value is missing or of another kind keeps the element with
all that is in it, one that resolves has the children evaluated in each of
its records, a content directive puts a text in their place, and any other
element has them evaluated where they stand.

No token, no position and no text of a tag occurs here; that the walk over
the tokens of a written forest does the same is shown in `Refinement`.
-/
import MarkupLens.Proofs.Markup.Forest
import MarkupLens.Render.Tag

namespace MarkupLens

open Text (allBlank trim)

namespace Site

def text? (c : Context) (s : Site) : Option Text := (c.get? s.key).bind Value.asText?

/-- The records in which a container's children are evaluated, if its key is bound to what it takes. -/
def scopes? (c : Context) (s : Site) : Option (List Context) :=
  match s.kind.binding, c.get? s.key with
  | .loop, some (.list items) => some items
  | .scope, some (.record record) => some [record]
  | _, _ => none

/-- The attribute that a directive writes. -/
def writes (c : Context) (s : Site) : List (Text × Option Text) :=
  match s.kind.binding with
  | .attribute name => [(name, some ((s.text? c).getD []))]
  | .boolean name => if (c.get? s.key).any (Value.asksFor name) then [(name, none)] else []
  | .content | .loop | .scope => []

/-- The attributes that a directive gives way to: the one it writes and its marker. -/
def results (c : Context) (s : Site) : List (Text × Option Text) := s.writes c ++ [(s.kind.marker, some s.key)]

theorem isContent_iff {s : Site} : s.isContent = true ↔ s.kind.binding = .content := by
  rw [Site.isContent, beq_iff_eq]

end Site

namespace PlainTag

variable (table : DirectiveTable)

/-- The directive that an attribute asks for. -/
def site? (a : Text × Option Text) : Option Site := Site.of? table (toAttribute a)

def sites (t : PlainTag) : List Site := t.attributes.filterMap (site? table)

/-- The first container among the directives of a tag. -/
def container? (t : PlainTag) : Option Site := (t.sites table).find? Site.isContainer

def content? (t : PlainTag) : Option Site := (t.sites table).find? Site.isContent

/-- Whether a directive is carried out on a tag with that first container: content and further containers
are not. -/
def carries : (first : Option Site) → Site → Bool
  | none, _ => true
  | some first, s => if s.isContainer then s == first else !s.isContent

/-- The directives of a tag that are left on it. -/
def left (t : PlainTag) : List Site := (t.sites table).filter fun s => !carries (t.container? table) s

/-- The names of the attributes that the directives of a tag write. -/
def driven (t : PlainTag) : List Text := (t.sites table).filterMap (·.kind.binding.target?)

/-- What an attribute of the tag becomes. -/
def attributeAfter (c : Context) (t : PlainTag) (a : Text × Option Text) : List (Text × Option Text) :=
  match (site? table a).filter (carries (t.container? table)) with
  | some s => s.results c
  | none => if (t.driven table).any (Text.sameName a.1) then [] else [a]

def carriedOut (c : Context) (t : PlainTag) : PlainTag :=
  { t with attributes := t.attributes.flatMap (t.attributeAfter table c) }

end PlainTag

/-- What becomes of an element. -/
inductive Fate where
  /-- it stays as it is, with all that is in it -/
  | kept
  /-- its children are evaluated in each of the records -/
  | expanded (scopes : List Context)
  /-- its children give way to the text -/
  | filled (text : Text)
  /-- its children are evaluated where they stand -/
  | walked

namespace Forest

def withoutBlanks : Forest → Forest
  | .nil => .nil
  | .text s rest => if allBlank s then withoutBlanks rest else .text s (withoutBlanks rest)
  | .comment s rest => .comment s (withoutBlanks rest)
  | .element tag children rest => .element tag children (withoutBlanks rest)

/-- The inside of a comment that stands alone but for blanks. -/
def placeholder? (f : Forest) : Option Text :=
  match f.withoutBlanks with
  | .comment s .nil => some (trim s)
  | _ => none

variable (table : DirectiveTable)

/-- The text that takes the place of an element's children: what its content directive is bound to, or else
the placeholder among them. -/
def filling? (c : Context) (tag : PlainTag) (children : Forest) : Option Text :=
  if tag.hasBody then (tag.content? table).bind fun s => (s.text? c).or children.placeholder? else none

/-- What becomes of an element with that tag and those children. -/
def fate (c : Context) (tag : PlainTag) (children : Forest) : Fate :=
  match tag.container? table with
  | some s =>
    match if tag.hasBody then s.scopes? c else none with
    | some scopes => .expanded scopes
    | none => .kept
  | none =>
    match filling? table c tag children with
    | some s => .filled s
    | none => .walked

/-- The forest evaluated against a context. -/
def evaluate : Context → Forest → Forest
  | _, .nil => .nil
  | c, .text s rest => .text s (evaluate c rest)
  | c, .comment s rest => .comment s (evaluate c rest)
  | c, .element tag children rest =>
    match fate table c tag children with
    | .kept => .element tag children (evaluate c rest)
    | .expanded scopes =>
      .element (tag.carriedOut table c) (concat (scopes.map fun scope => evaluate scope children)) (evaluate c rest)
    | .filled s => .element (tag.carriedOut table c) (.text s .nil) (evaluate c rest)
    | .walked => .element (tag.carriedOut table c) (evaluate c children) (evaluate c rest)

/-- An element that rendering reaches, with the record in force there. -/
structure Visit where
  scope : Context
  tag : PlainTag
  children : Forest

/-- The elements that rendering reaches. What is copied with the element around it, or gives way to a text, it
does not. -/
def visits : Context → Forest → List Visit
  | _, .nil => []
  | c, .text _ rest | c, .comment _ rest => visits c rest
  | c, .element tag children rest =>
    let below := match fate table c tag children with
      | .kept | .filled _ => []
      | .expanded scopes => scopes.flatMap fun scope => visits scope children
      | .walked => visits c children
    ⟨c, tag, children⟩ :: (below ++ visits c rest)

variable {table}

theorem evaluate_append (f g : Forest) (c : Context) :
    (f ++ g).evaluate table c = f.evaluate table c ++ g.evaluate table c := by
  induction f with
  | nil => rfl
  | text s rest ih | comment s rest ih => simp only [text_append, comment_append, evaluate, ih]
  | element tag children rest _ ih =>
    simp only [element_append, evaluate, ih]
    split <;> rfl

/-! ## Which fate -/

variable {c : Context} {tag : PlainTag} {children : Forest}

theorem fate_kept {s : Site} (hs : tag.container? table = some s) (h : tag.hasBody = true → s.scopes? c = none) :
    fate table c tag children = .kept := by
  cases hb : tag.hasBody with
  | false => simp only [fate, hs, hb, Bool.false_eq_true, if_false]
  | true => simp only [fate, hs, hb, if_true, h hb]

theorem fate_expanded {s : Site} {scopes : List Context} (hs : tag.container? table = some s)
    (hb : tag.hasBody = true) (h : s.scopes? c = some scopes) : fate table c tag children = .expanded scopes := by
  simp only [fate, hs, hb, if_true, h]

theorem fate_filled {u : Text} (hs : tag.container? table = none) (h : filling? table c tag children = some u) :
    fate table c tag children = .filled u := by
  simp only [fate, hs, h]

theorem fate_walked (hs : tag.container? table = none) (h : filling? table c tag children = none) :
    fate table c tag children = .walked := by
  simp only [fate, hs, h]

theorem fate_eq_kept_iff :
    fate table c tag children = .kept ↔
      ∃ s, tag.container? table = some s ∧ (tag.hasBody = true → s.scopes? c = none) := by
  constructor
  · intro h
    simp only [fate] at h
    cases hs : tag.container? table with
    | some s =>
      refine ⟨s, rfl, fun hb => ?_⟩
      simp only [hs, hb, if_true] at h
      cases hscopes : s.scopes? c with
      | none => rfl
      | some scopes => rw [hscopes] at h; cases h
    | none =>
      simp only [hs] at h
      split at h <;> cases h
  · rintro ⟨s, hs, h⟩
    exact fate_kept hs h

/-- **Why an element has its fate.** -/
theorem fate_cases (table : DirectiveTable) (c : Context) (tag : PlainTag) (children : Forest) :
    (∃ s, tag.container? table = some s ∧ (tag.hasBody = true → s.scopes? c = none) ∧
      fate table c tag children = .kept) ∨
    (∃ s scopes, tag.container? table = some s ∧ tag.hasBody = true ∧ s.scopes? c = some scopes ∧
      fate table c tag children = .expanded scopes) ∨
    (∃ u, tag.container? table = none ∧ filling? table c tag children = some u ∧
      fate table c tag children = .filled u) ∨
    (tag.container? table = none ∧ filling? table c tag children = none ∧
      fate table c tag children = .walked) := by
  cases hs : tag.container? table with
  | some s =>
    by_cases hk : tag.hasBody = true → s.scopes? c = none
    · exact .inl ⟨s, rfl, hk, fate_kept hs hk⟩
    · simp only [Classical.not_imp] at hk
      obtain ⟨hb, hk⟩ := hk
      obtain ⟨scopes, hscopes⟩ := Option.ne_none_iff_exists'.1 hk
      exact .inr (.inl ⟨s, scopes, rfl, hb, hscopes, fate_expanded hs hb hscopes⟩)
  | none =>
    cases hu : filling? table c tag children with
    | some u => exact .inr (.inr (.inl ⟨u, rfl, rfl, fate_filled hs hu⟩))
    | none => exact .inr (.inr (.inr ⟨rfl, rfl, fate_walked hs hu⟩))

end Forest

end MarkupLens
