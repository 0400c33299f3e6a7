/-
Open tags in all the forms that attributes have: `name="v"`, `name='v'`,
`name=v` and `name`, with any space between attributes and around an `=`, and
an ending with or without a slash.

What is written is read off again (`WellFormed.scan_written`). An attribute
ends before whatever may follow it: a space and the name of the next one, or
an ending that clears it (`Ending.Clears`).
-/
import MarkupLens.Proofs.Markup.Boundary
import MarkupLens.Proofs.Markup.TagBytes

namespace MarkupLens

open Text (isSpace byteLength)

/-- How a value is spelled behind the name of an attribute; `left` and `right` are the space around the `=`. -/
inductive Spelling where
  | bare
  | quoted (left right : Text) (quote : Char) (value : Text)
  | unquoted (left right value : Text)
  deriving DecidableEq, Repr

namespace Spelling

/-- The text behind the name. -/
def written : Spelling → Text
  | .bare => []
  | .quoted left right quote value => left ++ '=' :: right ++ quote :: value ++ [quote]
  | .unquoted left right value => left ++ '=' :: right ++ value

def value : Spelling → Option Text
  | .bare => none
  | .quoted _ _ _ value | .unquoted _ _ value => some value

/-- There is only space around the `=`, and nothing in the value ends it, or the tag. -/
def WellFormed : Spelling → Prop
  | .bare => True
  | .quoted left right quote value =>
    (∀ c ∈ left ++ right, isSpace c = true) ∧ (quote = '"' ∨ quote = '\'') ∧ quote ∉ value ∧ '>' ∉ value
  | .unquoted left right value =>
    (∀ c ∈ left ++ right, isSpace c = true) ∧ value ≠ [] ∧ value.head? ≠ some '"' ∧ value.head? ≠ some '\'' ∧
      ∀ c ∈ value, isSpace c = false ∧ c ≠ '>'

-- The bounded searches are named here: those over all characters must not be taken.
instance : DecidablePred WellFormed
  | .bare => inferInstanceAs (Decidable True)
  | .quoted left right quote value =>
    haveI : Decidable (∀ c ∈ left ++ right, isSpace c = true) := List.decidableBAll _ _
    inferInstanceAs (Decidable
      ((∀ c ∈ left ++ right, isSpace c = true) ∧ (quote = '"' ∨ quote = '\'') ∧ quote ∉ value ∧ '>' ∉ value))
  | .unquoted left right value =>
    haveI : Decidable (∀ c ∈ left ++ right, isSpace c = true) := List.decidableBAll _ _
    haveI : Decidable (∀ c ∈ value, isSpace c = false ∧ c ≠ '>') := List.decidableBAll _ _
    inferInstanceAs (Decidable
      ((∀ c ∈ left ++ right, isSpace c = true) ∧ value ≠ [] ∧ value.head? ≠ some '"' ∧ value.head? ≠ some '\'' ∧
        ∀ c ∈ value, isSpace c = false ∧ c ≠ '>'))

/-- The assignment that a scan reads off. -/
def assigned : Spelling → Option Assignment
  | .bare => none
  | .quoted left right quote value => some ⟨left ++ '=' :: right, [quote], value, [quote]⟩
  | .unquoted left right value => some ⟨left ++ '=' :: right, [], value, []⟩

theorem written_assigned (s : Spelling) : (s.assigned.map Assignment.written).getD [] = s.written := by
  cases s <;> simp [assigned, written, Assignment.written]

theorem value_assigned (s : Spelling) : s.assigned.map (·.value) = s.value := by cases s <;> rfl

theorem WellFormed.shaped {s : Spelling} (h : s.WellFormed) : ∀ v ∈ s.assigned, v.Shaped := by
  intro v hv
  cases s with
  | bare => cases hv
  | quoted left right quote value =>
    cases hv
    obtain ⟨hspace, hquote, hmem, -⟩ := h
    rw [List.forall_mem_append] at hspace
    exact ⟨⟨left, right, rfl, hspace⟩, .inl ⟨quote, hquote, rfl, hmem, .inl rfl⟩⟩
  | unquoted left right value =>
    cases hv
    obtain ⟨hspace, -, hdouble, hsingle, hvalue⟩ := h
    rw [List.forall_mem_append] at hspace
    refine ⟨⟨left, right, rfl, hspace⟩, .inr ⟨rfl, rfl, fun c hc => (hvalue c hc).1, ?_⟩⟩
    rintro c hc (rfl | rfl)
    · exact hdouble hc
    · exact hsingle hc

theorem WellFormed.not_mem_written {s : Spelling} (h : s.WellFormed) : '>' ∉ s.written := by
  have hspace : ∀ u : Text, (∀ c ∈ u, isSpace c = true) → '>' ∉ u :=
    fun u hu hmem => absurd (hu '>' hmem) (by decide)
  cases s with
  | bare => exact List.not_mem_nil
  | quoted left right quote value =>
    obtain ⟨hlr, hquote, -, hvalue⟩ := h
    rw [List.forall_mem_append] at hlr
    have hq : '>' ≠ quote := by rcases hquote with rfl | rfl <;> decide
    simp [written, hspace left hlr.1, hspace right hlr.2, hvalue, hq]
  | unquoted left right value =>
    obtain ⟨hlr, -, -, -, hvalue⟩ := h
    rw [List.forall_mem_append] at hlr
    have hv : '>' ∉ value := fun hmem => (hvalue '>' hmem).2 rfl
    simp [written, hspace left hlr.1, hspace right hlr.2, hv]

end Spelling

/-- An attribute as it is spelled, behind some space. -/
structure SpelledAttribute where
  space : Text
  name : Text
  spelling : Spelling
  deriving DecidableEq, Repr

namespace SpelledAttribute

/-- The text from the name to the end of the value. -/
def written (a : SpelledAttribute) : Text := a.name ++ a.spelling.written

/-- There is space in front of the attribute, and nothing in its name ends the name, or the tag. -/
structure WellFormed (a : SpelledAttribute) : Prop where
  apart : a.space ≠ []
  space : ∀ c ∈ a.space, isSpace c = true
  named : a.name ≠ []
  name : ∀ c ∈ a.name, isSpace c = false ∧ c ∉ "=/>".toList
  spelling : a.spelling.WellFormed

instance (a : SpelledAttribute) : Decidable a.WellFormed :=
  haveI : Decidable (∀ c ∈ a.space, isSpace c = true) := List.decidableBAll _ _
  haveI : Decidable (∀ c ∈ a.name, isSpace c = false ∧ c ∉ "=/>".toList) := List.decidableBAll _ _
  decidable_of_iff (a.space ≠ [] ∧ (∀ c ∈ a.space, isSpace c = true) ∧ a.name ≠ [] ∧
      (∀ c ∈ a.name, isSpace c = false ∧ c ∉ "=/>".toList) ∧ a.spelling.WellFormed)
    ⟨fun ⟨h1, h2, h3, h4, h5⟩ => ⟨h1, h2, h3, h4, h5⟩, fun ⟨h1, h2, h3, h4, h5⟩ => ⟨h1, h2, h3, h4, h5⟩⟩

def toAttribute (a : SpelledAttribute) : Attribute := ⟨a.space, a.name, a.spelling.assigned⟩

@[simp] theorem written_toAttribute (a : SpelledAttribute) : a.toAttribute.written = a.written := by
  rw [Attribute.written, written, ← a.spelling.written_assigned]
  rfl

variable {a : SpelledAttribute}

theorem WellFormed.not_isGapChar (h : a.WellFormed) : ∀ c ∈ a.name, OpenTag.isGapChar c = false := by
  intro c hc
  obtain ⟨hspace, hmem⟩ := h.name c hc
  simp only [String.reduceToList, List.mem_cons, List.not_mem_nil, or_false, not_or] at hmem
  simp [OpenTag.isGapChar, hspace, hmem]

theorem WellFormed.shaped (h : a.WellFormed) : a.toAttribute.Shaped := by
  obtain ⟨c, more, hname⟩ := List.exists_cons_of_ne_nil h.named
  have hgap := h.not_isGapChar
  rw [hname, List.forall_mem_cons] at hgap
  refine ⟨⟨c, more, hname, hgap.1, fun d hd => ?_⟩, h.spelling.shaped⟩
  obtain ⟨hspace, -, hsign⟩ := OpenTag.isSpace_of_not_isGapChar (hgap.2 d hd)
  exact ⟨hspace, hsign⟩

theorem WellFormed.endsBefore_nil (h : a.WellFormed) : a.toAttribute.EndsBefore [] := by
  have hlast : a.name.getLast? ≠ some '/' := by
    intro hslash
    have hgap := h.not_isGapChar '/' (List.mem_of_getLast? hslash)
    exact absurd hgap (by decide)
  obtain ⟨front, name, spelling⟩ := a
  cases spelling with
  | bare => exact .inl ⟨rfl, hlast⟩
  | quoted left right quote value => exact .inl (List.cons_ne_nil quote [])
  | unquoted left right value => exact .inr (.inl rfl)

/-- An attribute ends before a space that leads to no `=`. -/
theorem WellFormed.endsBefore_space (h : a.WellFormed) {space r : Text} (hne : space ≠ [])
    (hspace : ∀ c ∈ space, isSpace c = true) (hr : ∀ c ∈ r.head?, isSpace c = false ∧ c ≠ '=') :
    a.toAttribute.EndsBefore (space ++ r) := by
  have hhead : (space ++ r).head?.any isSpace = true := by
    obtain ⟨c, more, rfl⟩ := List.exists_cons_of_ne_nil hne
    exact hspace c List.mem_cons_self
  have hdrop : (space ++ r).dropWhile isSpace = r := Text.dropWhile_span hspace fun c hc => (hr c hc).1
  obtain ⟨front, name, spelling⟩ := a
  cases spelling with
  | bare =>
    refine .inr (.inr ⟨hhead, ?_⟩)
    rw [hdrop]
    exact fun hsign => (hr '=' hsign).2 rfl
  | quoted left right quote value => exact .inl (List.cons_ne_nil quote [])
  | unquoted left right value => exact .inr (.inr ⟨rfl, h.spelling.2.1, hhead⟩)

theorem WellFormed.not_mem (h : a.WellFormed) : '>' ∉ a.space ++ a.written := by
  intro hmem
  rw [written, List.mem_append, List.mem_append] at hmem
  rcases hmem with hmem | hmem | hmem
  · exact absurd (h.space '>' hmem) (by decide)
  · exact (h.name '>' hmem).2 (by decide)
  · exact h.spelling.not_mem_written hmem

end SpelledAttribute

/-- What stands between the last attribute and the `>` of a tag. -/
inductive Ending where
  | plain (space : Text)
  | slash (before between : Text)
  deriving DecidableEq, Repr

namespace Ending

def written : Ending → Text
  | .plain space => space
  | .slash before between => before ++ '/' :: between

def hasSlash : Ending → Bool
  | .plain _ => false
  | .slash _ _ => true

/-- The space of the ending. -/
def space : Ending → Text
  | .plain space => space
  | .slash before between => before ++ between

/-- The slash of the ending is not taken for the attribute's: there is space between it and an unquoted value, and
between it and a name, if it does not stand directly in front of the `>`. -/
def Clears : Ending → Spelling → Prop
  | .slash before _, .unquoted .. => before ≠ []
  | .slash before between, .bare => between ≠ [] → before ≠ []
  | .slash _ _, .quoted .. | .plain _, _ => True

instance : (e : Ending) → (s : Spelling) → Decidable (e.Clears s)
  | .slash before _, .unquoted .. => inferInstanceAs (Decidable (before ≠ []))
  | .slash before between, .bare => inferInstanceAs (Decidable (between ≠ [] → before ≠ []))
  | .slash _ _, .quoted .. | .plain _, _ => inferInstanceAs (Decidable True)

variable {e : Ending}

theorem isSpace_or_eq_of_mem (h : ∀ c ∈ e.space, isSpace c = true) {c : Char} (hc : c ∈ e.written) :
    isSpace c = true ∨ c = '/' := by
  cases e with
  | plain space => exact .inl (h c hc)
  | slash before between =>
    rw [space, List.forall_mem_append] at h
    rw [written, List.mem_append, List.mem_cons] at hc
    rcases hc with hc | hc | hc
    · exact .inl (h.1 c hc)
    · exact .inr hc
    · exact .inl (h.2 c hc)

theorem isGapChar_of_mem (h : ∀ c ∈ e.space, isSpace c = true) : ∀ c ∈ e.written, OpenTag.isGapChar c = true := by
  intro c hc
  rcases isSpace_or_eq_of_mem h hc with hspace | rfl
  · simp [OpenTag.isGapChar, hspace]
  · rfl

theorem closesItself_written (h : ∀ c ∈ e.space, isSpace c = true) :
    OpenTag.closesItself e.written [] = e.hasSlash := by
  have hblank : ∀ s : Text, (∀ c ∈ s, isSpace c = true) → Text.allBlank s = true :=
    fun s hs => List.all_eq_true.2 fun c hc => Text.isBlank_of_isSpace (hs c hc)
  rw [OpenTag.closesItself_eq, Text.allBlank_nil, Bool.true_and]
  cases e with
  | plain space => exact Text.lastSlash_of_allBlank (hblank space h)
  | slash before between =>
    rw [space, List.forall_mem_append] at h
    have hslash : Text.lastSlash ['/'] = true := by decide
    rw [written, ← List.singleton_append, Text.lastSlash_append, Text.lastSlash_append, Text.allBlank_append,
      hblank between h.2, hslash]
    rfl

/-- An attribute ends before an ending that clears it. -/
theorem Clears.endsBefore {a : SpelledAttribute} (hclears : e.Clears a.spelling) (ha : a.WellFormed)
    (h : ∀ c ∈ e.space, isSpace c = true) : a.toAttribute.EndsBefore e.written := by
  cases e with
  | plain space =>
    by_cases hne : space = []
    · subst hne
      exact ha.endsBefore_nil
    · have hends : a.toAttribute.EndsBefore (space ++ []) := ha.endsBefore_space hne h fun c hc => by cases hc
      rwa [List.append_nil] at hends
  | slash before between =>
    rw [space, List.forall_mem_append] at h
    by_cases hne : before = []
    · -- the slash stands directly behind the attribute: quotes keep it off, and a name leaves the last character
      subst hne
      obtain ⟨front, name, spelling⟩ := a
      cases spelling with
      | bare =>
        have hbetween : between = [] := by_contra fun hb => hclears hb rfl
        subst hbetween
        exact .inr (.inl rfl)
      | quoted left right quote value => exact .inl (List.cons_ne_nil quote [])
      | unquoted left right value => exact absurd rfl hclears
    · refine ha.endsBefore_space hne h.1 fun c hc => ?_
      obtain rfl : '/' = c := Option.some.inj hc
      decide

end Ending

/-- An open tag as it is spelled. -/
structure SpelledTag where
  name : Text
  attributes : List SpelledAttribute
  ending : Ending
  deriving DecidableEq, Repr

namespace SpelledTag

/-- The text of attributes, with the space in front of each. -/
def writtenAttributes (attributes : List SpelledAttribute) : Text := attributes.flatMap fun a => a.space ++ a.written

/-- What stands between the `<` and the `>`. -/
def inner (t : SpelledTag) : Text := t.name ++ (writtenAttributes t.attributes ++ t.ending.written)

def written (t : SpelledTag) : Text := '<' :: (t.inner ++ ['>'])

/-- Nothing in the tag ends a part of it early. -/
structure WellFormed (t : SpelledTag) : Prop where
  letter : t.name.head?.any Char.isAlpha = true
  name : ∀ c ∈ t.name, isSpace c = false ∧ c ∉ "/>".toList
  attributes : ∀ a ∈ t.attributes, a.WellFormed
  space : ∀ c ∈ t.ending.space, isSpace c = true
  last : ∀ a ∈ t.attributes.getLast?, t.ending.Clears a.spelling

instance (t : SpelledTag) : Decidable t.WellFormed :=
  haveI : Decidable (∀ c ∈ t.name, isSpace c = false ∧ c ∉ "/>".toList) := List.decidableBAll _ _
  haveI : Decidable (∀ c ∈ t.ending.space, isSpace c = true) := List.decidableBAll _ _
  decidable_of_iff (t.name.head?.any Char.isAlpha = true ∧ (∀ c ∈ t.name, isSpace c = false ∧ c ∉ "/>".toList) ∧
      (∀ a ∈ t.attributes, a.WellFormed) ∧ (∀ c ∈ t.ending.space, isSpace c = true) ∧
      ∀ a ∈ t.attributes.getLast?, t.ending.Clears a.spelling)
    ⟨fun ⟨h1, h2, h3, h4, h5⟩ => ⟨h1, h2, h3, h4, h5⟩, fun ⟨h1, h2, h3, h4, h5⟩ => ⟨h1, h2, h3, h4, h5⟩⟩

/-- What is found in the tag. -/
def toTag (t : SpelledTag) : OpenTag :=
  { opening := ['<']
    name := t.name
    attributes := t.attributes.map SpelledAttribute.toAttribute
    gap := t.ending.written
    closing := ['>']
    selfClosing := t.ending.hasSlash }

theorem writtenAttributes_map (l : List SpelledAttribute) :
    OpenTag.writtenAttributes (l.map SpelledAttribute.toAttribute) = writtenAttributes l := by
  rw [OpenTag.writtenAttributes, writtenAttributes, List.flatMap_map]
  simp only [SpelledAttribute.written_toAttribute]
  rfl

theorem written_toTag (t : SpelledTag) : t.toTag.written = t.written := by
  simp [OpenTag.written, toTag, written, inner, writtenAttributes_map]

variable {t : SpelledTag}

theorem readable_map {l : List SpelledAttribute} {e : Ending} (hl : ∀ a ∈ l, a.WellFormed)
    (he : ∀ c ∈ e.space, isSpace c = true) (hlast : ∀ a ∈ l.getLast?, e.Clears a.spelling) :
    OpenTag.Readable (l.map SpelledAttribute.toAttribute) e.written := by
  induction l with
  | nil => exact Ending.isGapChar_of_mem he
  | cons a l ih =>
    rw [List.forall_mem_cons] at hl
    have hgap : ∀ c ∈ a.space, OpenTag.isGapChar c = true := fun c hc => by
      simp [OpenTag.isGapChar, hl.1.space c hc]
    cases l with
    | nil => exact ⟨hgap, hl.1.shaped, (hlast a rfl).endsBefore hl.1 he, Ending.isGapChar_of_mem he⟩
    | cons b l =>
      rw [List.getLast?_cons_cons] at hlast
      refine ⟨hgap, hl.1.shaped, ?_, ih hl.2 hlast⟩
      -- behind the attribute stands the space of the next one, which leads to its name and to no `=`
      have hb : b.WellFormed := hl.2 b List.mem_cons_self
      obtain ⟨d, more, hname⟩ := List.exists_cons_of_ne_nil hb.named
      have hd := OpenTag.isSpace_of_not_isGapChar (hb.not_isGapChar d (by rw [hname]; exact List.mem_cons_self))
      rw [writtenAttributes_map, writtenAttributes, List.flatMap_cons, SpelledAttribute.written, hname]
      simp only [List.append_assoc, List.cons_append]
      refine hl.1.endsBefore_space hb.apart hb.space fun c hc => ?_
      obtain rfl : d = c := Option.some.inj hc
      exact ⟨hd.1, hd.2.2⟩

theorem closes_map {l : List SpelledAttribute} {e : Ending} (hl : ∀ a ∈ l, a.WellFormed)
    (he : ∀ c ∈ e.space, isSpace c = true) :
    OpenTag.closes (l.map SpelledAttribute.toAttribute) e.written = e.hasSlash := by
  induction l with
  | nil => exact Ending.closesItself_written he
  | cons a l ih =>
    rw [List.forall_mem_cons] at hl
    have hspace : Text.lastSlash a.space = false := by
      refine Text.lastSlash_of_not_mem fun hslash => ?_
      have hs := hl.1.space '/' hslash
      exact absurd hs (by decide)
    rw [List.map_cons, OpenTag.closes, ih hl.2, OpenTag.closesItself_eq]
    show (_ && Text.lastSlash a.space || _) = _
    rw [hspace, Bool.and_false, Bool.false_or]

/-- Behind the name of a tag stands a space, or the slash of the ending. -/
theorem WellFormed.head?_behind (h : t.WellFormed) :
    ∀ c ∈ (writtenAttributes t.attributes ++ t.ending.written).head?, isSpace c = true ∨ c = '/' := by
  intro c hc
  cases hl : t.attributes with
  | nil =>
    rw [hl] at hc
    exact Ending.isSpace_or_eq_of_mem h.space (List.mem_of_mem_head? hc)
  | cons a l =>
    have ha : a.WellFormed := h.attributes a (by rw [hl]; exact List.mem_cons_self)
    obtain ⟨d, more, hspace⟩ := List.exists_cons_of_ne_nil ha.apart
    rw [hl, writtenAttributes, List.flatMap_cons, hspace] at hc
    obtain rfl : d = c := Option.some.inj hc
    exact .inl (ha.space d (by rw [hspace]; exact List.mem_cons_self))

/-- **A well-formed tag** that is written out is read off as it was spelled. -/
theorem WellFormed.scan_written (h : t.WellFormed) : OpenTag.scan t.written = t.toTag := by
  have hname : ∀ c ∈ t.name, OpenTag.isNameChar c = true := by
    intro c hc
    obtain ⟨hspace, hmem⟩ := h.name c hc
    simp only [String.reduceToList, List.mem_cons, List.not_mem_nil, or_false, not_or] at hmem
    simp [OpenTag.isNameChar, hspace, hmem]
  have hhead : ∀ c ∈ (writtenAttributes t.attributes ++ t.ending.written).head?, OpenTag.isNameChar c = false := by
    intro c hc
    rcases h.head?_behind c hc with hspace | rfl
    · simp [OpenTag.isNameChar, hspace]
    · rfl
  have hread := readable_map h.attributes h.space h.last
  rw [← writtenAttributes_map] at hhead
  rw [written, inner, ← writtenAttributes_map, OpenTag.scan_eq hname hhead hread, closes_map h.attributes h.space]
  rfl

/-- The tag ends at its only `>`. -/
theorem WellFormed.isInside (h : t.WellFormed) : Markup.IsInside .openTag t.inner := by
  rw [Markup.isInside_openTag]
  constructor
  · have hletter := h.letter
    rw [inner, List.head?_append]
    cases hhead : t.name.head? with
    | none =>
      rw [hhead] at hletter
      cases hletter
    | some c =>
      rw [hhead] at hletter
      exact hletter
  · intro hmem
    rw [inner, List.mem_append, List.mem_append, writtenAttributes, List.mem_flatMap] at hmem
    rcases hmem with hmem | ⟨a, ha, hmem⟩ | hmem
    · exact (h.name '>' hmem).2 (by decide)
    · exact (h.attributes a ha).not_mem hmem
    · rcases Ending.isSpace_or_eq_of_mem h.space hmem with hspace | hslash
      · exact absurd hspace (by decide)
      · exact absurd hslash (by decide)

/-- A well-formed tag is one token, whatever stands behind it. -/
theorem WellFormed.whole (h : t.WellFormed) : (⟨.openTag, t.written⟩ : Token).Whole := Markup.next?_tag h.isInside

theorem WellFormed.tokens_written (h : t.WellFormed) : Markup.tokens t.written = [⟨.openTag, t.written⟩] := by
  have hnext := Markup.next?_tag h.isInside []
  rw [List.append_nil] at hnext
  rw [written, Markup.tokens_of_next? hnext, Markup.tokens_of_next?_none rfl]

/-- **Every form of attribute is read off as it was written:** names and values in order, the bytes of each from its
name to the end of its value, and the slash of the ending. -/
theorem scan_spelled (h : t.WellFormed) :
    (OpenTag.scan t.written).name = t.name ∧
    (OpenTag.scan t.written).attributes.map (fun a => (a.name, a.value)) =
      t.attributes.map (fun a => (a.name, a.spelling.value)) ∧
    (OpenTag.scan t.written).spans.length = t.attributes.length ∧
    (∀ before a after, t.attributes = before ++ a :: after →
      (OpenTag.scan t.written).spans[before.length]? =
        some (byteLength ('<' :: t.name ++ writtenAttributes before ++ a.space),
          byteLength ('<' :: t.name ++ writtenAttributes before ++ a.space ++ a.written))) ∧
    (OpenTag.scan t.written).selfClosing = t.ending.hasSlash ∧
    Markup.tokens t.written = [⟨.openTag, t.written⟩] := by
  rw [h.scan_written]
  refine ⟨rfl, ?_, ?_, ?_, rfl, h.tokens_written⟩
  · rw [toTag, List.map_map]
    refine List.map_congr_left fun a _ => ?_
    exact congrArg _ a.spelling.value_assigned
  · rw [OpenTag.spans, OpenTag.length_spansFrom, toTag, List.length_map]
  · intro before a after hsplit
    have hspan := OpenTag.getElem?_spansFrom (byteLength ('<' :: t.name)) (before.map SpelledAttribute.toAttribute)
      a.toAttribute (after.map SpelledAttribute.toAttribute)
    have hattributes : t.toTag.attributes =
        before.map SpelledAttribute.toAttribute ++ a.toAttribute :: after.map SpelledAttribute.toAttribute := by
      rw [toTag, hsplit, List.map_append, List.map_cons]
    rw [List.length_map, ← hattributes, writtenAttributes_map, SpelledAttribute.written_toAttribute] at hspan
    simp only [Text.byteLength_append] at hspan ⊢
    rw [Nat.add_assoc (byteLength ('<' :: t.name))]
    exact hspan

/-- A tag with attributes of all forms, and space wherever there may be some. -/
def spelledInput : SpelledTag :=
  ⟨"input-é", [⟨" ", "type", .quoted [] [] '"' "check 'box' /"⟩, ⟨"\n ", "ü", .quoted " " "\t" '\'' "a\"b"⟩,
    ⟨" ", "size", .unquoted [] " " "3/="⟩, ⟨"  ", "checked", .bare⟩], .slash " " "\n"⟩

theorem scan_spelled_input : spelledInput.WellFormed ∧
    spelledInput.written = "<input-é type=\"check 'box' /\"\n ü =\t'a\"b' size= 3/=  checked /\n>" ∧
    (OpenTag.scan spelledInput.written).attributes.map (fun a => (a.name, a.value)) =
      ([("type", some "check 'box' /"), ("ü", some "a\"b"), ("size", some "3/="), ("checked", none)] :
        List (Text × Option Text)) ∧
    (OpenTag.scan spelledInput.written).spans[2]? = some (43, 52) ∧
    (OpenTag.scan spelledInput.written).selfClosing = true := by
  have hwell : spelledInput.WellFormed := by decide +kernel
  obtain ⟨-, hattributes, -, hspans, hself, -⟩ := scan_spelled hwell
  have hsize := hspans (spelledInput.attributes.take 2) ⟨" ", "size", .unquoted [] " " "3/="⟩
    [⟨"  ", "checked", .bare⟩] rfl
  exact ⟨hwell, by decide +kernel, hattributes.trans rfl, hsize.trans (by decide +kernel), hself⟩

end SpelledTag

end MarkupLens
