/-
Open tags in the plain style of templates: one space in front of every
attribute, values in double quotes, nothing else between the name and the
`>` or `/>`. Such a tag is its name, its attributes as pairs, and whether it
ends with a slash.

Scanning such a tag that is written out gives the tag again
(`Legible.scan_written`), and its text is cut off whatever it stands in front
of, if nothing in it ends the tag or a part of it early (`Legible`): it is a
tag spelled in one of the forms of attributes (`Legible.spelled`). Where the
names are made of the characters of names (`WellFormed`), the quick tests on
its text agree with the scan.
-/
import MarkupLens.Proofs.Markup.TagForms

namespace MarkupLens

open Text (isSpace isBlank isBlank_of_isSpace trim dropStart dropEnding takeWhile_span)
open OpenTag (isGapChar)

/-- An open tag in the plain style. -/
structure PlainTag where
  name : Text
  attributes : List (Text × Option Text)
  /-- ends with `/>` -/
  slash : Bool
  deriving DecidableEq, Repr

namespace PlainTag

/-- An attribute behind one space, its value in double quotes. -/
def toAttribute (a : Text × Option Text) : Attribute := ⟨[' '], a.1, a.2.map fun v => ⟨['='], ['"'], v, ['"']⟩⟩

def ending (slash : Bool) : Text := if slash then ['/'] else []

def opened (t : PlainTag) : OpenTag :=
  { opening := ['<']
    name := t.name
    attributes := t.attributes.map toAttribute
    gap := ending t.slash
    closing := ['>']
    selfClosing := t.slash }

def written (t : PlainTag) : Text := t.opened.written

/-- What stands between the `<` and the `>`. -/
def inner (t : PlainTag) : Text :=
  t.name ++ (OpenTag.writtenAttributes (t.attributes.map toAttribute) ++ ending t.slash)

theorem written_eq (t : PlainTag) : t.written = '<' :: (t.inner ++ ['>']) := by
  simp [written, opened, OpenTag.written, inner]

def hasBody (t : PlainTag) : Bool := !t.slash && !isVoid t.name

def openToken (t : PlainTag) : Token := ⟨.openTag, t.written⟩

def closeToken (t : PlainTag) : Token := ⟨.closeTag, "</" ++ t.name ++ ">"⟩

/-- The name of an attribute that is read off as it is written. -/
def IsLegibleName (s : Text) : Prop := s ≠ [] ∧ ∀ c ∈ s, isSpace c = false ∧ c ∉ "\"'/=<>".toList

/-- The tag is read off as it is written: nothing in it ends the tag, its name, or the name or the value of an
attribute. -/
structure Legible (t : PlainTag) : Prop where
  letter : t.name.head?.any Char.isAlpha = true
  name : ∀ c ∈ t.name, isSpace c = false ∧ c ∉ "/<>".toList
  names : ∀ a ∈ t.attributes, IsLegibleName a.1
  values : ∀ a ∈ t.attributes, ∀ v ∈ a.2, '"' ∉ v ∧ '>' ∉ v

-- The bounded search is named here: the one over all characters must not be taken.
instance (s : Text) : Decidable (IsLegibleName s) :=
  haveI : Decidable (∀ c ∈ s, isSpace c = false ∧ c ∉ "\"'/=<>".toList) := List.decidableBAll _ s
  inferInstanceAs (Decidable (s ≠ [] ∧ ∀ c ∈ s, isSpace c = false ∧ c ∉ "\"'/=<>".toList))

instance (t : PlainTag) : Decidable t.Legible :=
  haveI : Decidable (∀ c ∈ t.name, isSpace c = false ∧ c ∉ "/<>".toList) := List.decidableBAll _ t.name
  decidable_of_iff (t.name.head?.any Char.isAlpha = true ∧ (∀ c ∈ t.name, isSpace c = false ∧ c ∉ "/<>".toList) ∧
      (∀ a ∈ t.attributes, IsLegibleName a.1) ∧ ∀ a ∈ t.attributes, ∀ v ∈ a.2, '"' ∉ v ∧ '>' ∉ v)
    ⟨fun ⟨h1, h2, h3, h4⟩ => ⟨h1, h2, h3, h4⟩, fun ⟨h1, h2, h3, h4⟩ => ⟨h1, h2, h3, h4⟩⟩

/-- A character that may stand in the name of a tag or an attribute. -/
def isNameChar (c : Char) : Bool :=
  !isBlank c && c != '"' && c != '\'' && c != '/' && c != '=' && c != '<' && c != '>'

/-- At least one character, and every one fit for a name. -/
def IsName (s : Text) : Prop := s ≠ [] ∧ ∀ c ∈ s, isNameChar c = true

/-- The names are names, no value ends its quotes or the tag, and no two attributes share a name. -/
structure WellFormed (t : PlainTag) : Prop where
  letter : t.name.head?.any Char.isAlpha = true
  name : IsName t.name
  names : ∀ a ∈ t.attributes, IsName a.1
  values : ∀ a ∈ t.attributes, ∀ v ∈ a.2, '"' ∉ v ∧ '>' ∉ v
  distinct : (t.attributes.map (·.1)).Nodup

instance (s : Text) : Decidable (IsName s) :=
  decidable_of_iff (s ≠ [] ∧ s.all isNameChar = true) (by rw [IsName, List.all_eq_true])

instance (t : PlainTag) : Decidable t.WellFormed :=
  decidable_of_iff (t.name.head?.any Char.isAlpha = true ∧ IsName t.name ∧ (∀ a ∈ t.attributes, IsName a.1) ∧
      (∀ a ∈ t.attributes, ∀ v ∈ a.2, '"' ∉ v ∧ '>' ∉ v) ∧ (t.attributes.map (·.1)).Nodup)
    ⟨fun ⟨h1, h2, h3, h4, h5⟩ => ⟨h1, h2, h3, h4, h5⟩, fun ⟨h1, h2, h3, h4, h5⟩ => ⟨h1, h2, h3, h4, h5⟩⟩

@[simp] theorem hasBody_opened (t : PlainTag) : t.opened.hasBody = t.hasBody := rfl

@[simp] theorem name_opened (t : PlainTag) : t.opened.name = t.name := rfl

@[simp] theorem name_toAttribute (a : Text × Option Text) : (toAttribute a).name = a.1 := rfl

@[simp] theorem value_toAttribute (a : Text × Option Text) : (toAttribute a).value = a.2 := by
  rcases a with ⟨n, _ | v⟩ <;> rfl

/-! ## Characters of names -/

theorem isNameChar_iff {c : Char} : isNameChar c = true ↔
    isBlank c = false ∧ c ≠ '"' ∧ c ≠ '\'' ∧ c ≠ '/' ∧ c ≠ '=' ∧ c ≠ '<' ∧ c ≠ '>' := by
  simp [isNameChar, and_assoc]

theorem isSpace_of_isNameChar {c : Char} (h : isNameChar c = true) : isSpace c = false := by
  cases hs : isSpace c with
  | false => rfl
  | true => rw [isNameChar_iff, isBlank_of_isSpace hs] at h; cases h.1

theorem IsName.isLegibleName {s : Text} (h : IsName s) : IsLegibleName s := by
  refine ⟨h.1, fun c hc => ?_⟩
  obtain ⟨-, h1, h2, h3, h4, h5, h6⟩ := isNameChar_iff.1 (h.2 c hc)
  exact ⟨isSpace_of_isNameChar (h.2 c hc), by simp [h1, h2, h3, h4, h5, h6]⟩

theorem WellFormed.legible {t : PlainTag} (h : t.WellFormed) : t.Legible := by
  refine ⟨h.letter, fun c hc => ?_, fun a ha => (h.names a ha).isLegibleName, h.values⟩
  obtain ⟨hs, hmem⟩ := h.name.isLegibleName.2 c hc
  simp only [String.reduceToList, List.mem_cons, List.not_mem_nil, or_false, not_or] at hmem
  exact ⟨hs, by simp [hmem]⟩

/-! ## Scanning -/

/-- No character of the name of an attribute is part of a gap. -/
theorem IsLegibleName.isGapChar {s : Text} (h : IsLegibleName s) : ∀ c ∈ s, isGapChar c = false := by
  intro c hc
  obtain ⟨hs, hmem⟩ := h.2 c hc
  simp only [String.reduceToList, List.mem_cons, List.not_mem_nil, or_false, not_or] at hmem
  simp [OpenTag.isGapChar, hs, hmem]

/-- An attribute in the plain style is in the form of one. -/
theorem shaped_toAttribute {a : Text × Option Text} (hn : IsLegibleName a.1) (hv : ∀ v ∈ a.2, '"' ∉ v) :
    (toAttribute a).Shaped := by
  obtain ⟨n, v⟩ := a
  refine ⟨?_, ?_⟩
  · cases n with
    | nil => exact absurd rfl hn.1
    | cons c more =>
      refine ⟨c, more, rfl, hn.isGapChar c (by simp), fun d hd => ?_⟩
      obtain ⟨h1, -, h2⟩ := OpenTag.isSpace_of_not_isGapChar (hn.isGapChar d (by simp [hd]))
      exact ⟨h1, h2⟩
  · intro w hw
    cases v with
    | none => simp [toAttribute] at hw
    | some v =>
      simp only [toAttribute, Option.map_some, Option.mem_def, Option.some.injEq] at hw
      subst hw
      exact ⟨⟨[], [], rfl, by simp, by simp⟩, .inl ⟨'"', .inl rfl, rfl, hv v rfl, .inl rfl⟩⟩

theorem endsBefore_quoted (n v rest : Text) : (toAttribute (n, some v)).EndsBefore rest := .inl (by simp)

theorem endsBefore_space {b : Text × Option Text} {d : Char} (hd : isGapChar d = false) (rest : Text) :
    (toAttribute b).EndsBefore (' ' :: d :: rest) := by
  obtain ⟨n, v⟩ := b
  obtain ⟨h1, -, h2⟩ := OpenTag.isSpace_of_not_isGapChar hd
  have hspace : isSpace ' ' = true := by decide
  cases v with
  | some v => exact endsBefore_quoted n v _
  | none => exact .inr (.inr ⟨by simp [hspace], by simp [hspace, h1, h2]⟩)

/-! ## Plain tags as spelled ones -/

/-- The attribute as it is spelled. -/
def spelledAttribute (a : Text × Option Text) : SpelledAttribute :=
  ⟨[' '], a.1, (a.2.map (Spelling.quoted [] [] '"')).getD .bare⟩

/-- The tag as it is spelled. -/
def spelled (t : PlainTag) : SpelledTag :=
  ⟨t.name, t.attributes.map spelledAttribute, if t.slash then .slash [] [] else .plain []⟩

theorem toTag_spelled (t : PlainTag) : t.spelled.toTag = t.opened := by
  obtain ⟨name, l, slash⟩ := t
  have hl : (l.map spelledAttribute).map SpelledAttribute.toAttribute = l.map toAttribute := by
    rw [List.map_map]
    refine List.map_congr_left fun a _ => ?_
    obtain ⟨n, _ | v⟩ := a <;> rfl
  rw [SpelledTag.toTag, spelled, hl]
  cases slash <;> rfl

theorem written_spelled (t : PlainTag) : t.spelled.written = t.written := by
  rw [← SpelledTag.written_toTag, toTag_spelled, written]

theorem wellFormed_spelledAttribute {a : Text × Option Text} (hn : IsLegibleName a.1)
    (hv : ∀ v ∈ a.2, '"' ∉ v ∧ '>' ∉ v) : (spelledAttribute a).WellFormed := by
  have hchars : ∀ c ∈ "=/>".toList, c ∈ "\"'/=<>".toList := by simp
  refine ⟨List.cons_ne_nil ' ' [], List.forall_mem_singleton.2 rfl, hn.1, fun c hc => ?_, ?_⟩
  · exact ⟨(hn.2 c hc).1, fun hmem => (hn.2 c hc).2 (hchars c hmem)⟩
  · obtain ⟨n, _ | v⟩ := a
    · trivial
    · exact ⟨List.forall_mem_nil _, .inl rfl, hv v rfl⟩

theorem Legible.spelled {t : PlainTag} (h : t.Legible) : t.spelled.WellFormed := by
  obtain ⟨name, l, slash⟩ := t
  have hchars : ∀ c ∈ "/>".toList, c ∈ "/<>".toList := by simp
  refine ⟨h.letter, fun c hc => ?_, ?_, ?_, ?_⟩
  · exact ⟨(h.name c hc).1, fun hmem => (h.name c hc).2 (hchars c hmem)⟩
  · exact List.forall_mem_map.2 fun a ha => wellFormed_spelledAttribute (h.names a ha) (h.values a ha)
  · cases slash <;> exact List.forall_mem_nil _
  · intro a ha
    obtain ⟨⟨n, v⟩, -, rfl⟩ := List.mem_map.1 (List.mem_of_getLast? ha)
    cases slash with
    | false => trivial
    | true =>
      -- the slash stands directly in front of the `>`
      cases v with
      | none => exact fun hbetween => absurd rfl hbetween
      | some v => trivial

/-- **Scanning a legible tag** that is written out gives the tag again. -/
theorem Legible.scan_written {t : PlainTag} (h : t.Legible) : OpenTag.scan t.written = t.opened := by
  rw [← written_spelled, h.spelled.scan_written, toTag_spelled]

theorem scan_written {t : PlainTag} (h : t.WellFormed) : OpenTag.scan t.written = t.opened := h.legible.scan_written

@[simp] theorem openTagName_written {t : PlainTag} (h : t.WellFormed) : Markup.openTagName t.written = t.name := by
  show (OpenTag.scan t.written).name = t.name
  rw [scan_written h, name_opened]

theorem IsName.exists_last {n : Text} (h : IsName n) :
    ∃ s c, n = s ++ [c] ∧ isBlank c = false ∧ (c == '/') = false := by
  rcases List.eq_nil_or_concat n with rfl | ⟨s, c, rfl⟩
  · exact absurd rfl h.1
  · rw [List.concat_eq_append] at h ⊢
    obtain ⟨hb, -, -, hs, -⟩ := isNameChar_iff.1 (h.2 c (by simp))
    exact ⟨s, c, rfl, hb, by simpa using hs⟩

theorem exists_last_attribute {a : Text × Option Text} (h : IsName a.1) :
    ∃ s c, (toAttribute a).written = s ++ [c] ∧ isBlank c = false ∧ (c == '/') = false := by
  obtain ⟨n, v⟩ := a
  cases v with
  | none => simpa [toAttribute, Attribute.written] using h.exists_last
  | some v => exact ⟨n ++ ['=', '"'] ++ v, '"', by simp [toAttribute, Attribute.written, Assignment.written], by decide, rfl⟩

/-- The text in front of the `>` ends in a character that is not blank, a slash only where the tag closes
itself. -/
theorem exists_last {t : PlainTag} (h : t.WellFormed) :
    ∃ s c, t.inner = s ++ [c] ∧ isBlank c = false ∧ (c == '/') = t.slash := by
  rw [inner]
  cases t.slash with
  | true =>
    exact ⟨t.name ++ OpenTag.writtenAttributes (t.attributes.map toAttribute), '/', by simp [ending], by decide, rfl⟩
  | false =>
    rcases List.eq_nil_or_concat t.attributes with hnil | ⟨l, a, hl⟩
    · obtain ⟨s, c, he, hb, hs⟩ := h.name.exists_last
      exact ⟨s, c, by simp [hnil, OpenTag.writtenAttributes, ending, he], hb, hs⟩
    · rw [List.concat_eq_append] at hl
      obtain ⟨s, c, he, hb, hs⟩ := exists_last_attribute (h.names a (by simp [hl]))
      refine ⟨t.name ++ OpenTag.writtenAttributes (l.map toAttribute) ++ ' ' :: s, c, ?_, hb, hs⟩
      have hgap : (toAttribute a).gap = [' '] := rfl
      simp [hl, OpenTag.writtenAttributes, ending, he, hgap]

@[simp] theorem opensBody_written {t : PlainTag} (h : t.WellFormed) : Markup.opensBody t.written = t.hasBody := by
  obtain ⟨s, c, he, hb, hs⟩ := exists_last h
  have h1 : dropEnding ">" t.written = '<' :: s ++ [c] := by
    rw [written_eq, he]
    exact Text.dropEnding_append_self ">" ('<' :: (s ++ [c]))
  rw [Markup.opensBody, h1, Text.trimEnd_concat _ hb, openTagName_written h, List.getLast?_concat, hasBody, ← hs]
  simp [bne]

@[simp] theorem closeTagName_closeToken {t : PlainTag} (h : t.WellFormed) :
    Markup.closeTagName t.closeToken.text = t.name := by
  have h1 : dropStart "</" t.closeToken.text = t.name ++ ">" := by
    rw [closeToken, List.append_assoc]
    exact Text.dropStart_append "</" _
  have h2 : trim t.name = t.name := Text.trim_of_forall fun c hc => (isNameChar_iff.1 (h.name.2 c hc)).1
  have h3 : t.name.takeWhile (!isSpace ·) = t.name := by
    have := takeWhile_span (p := (!isSpace ·)) (s := t.name) (r := [])
      (fun c hc => by simp [isSpace_of_isNameChar (h.name.2 c hc)]) (by simp)
    simpa using this
  rw [Markup.closeTagName, h1, Text.dropEnding_append_self, h2, h3]

theorem opened_inj {t u : PlainTag} (h : t.opened = u.opened) : t = u := by
  have hattribute : ∀ a b : Text × Option Text, toAttribute a = toAttribute b → a = b := by
    intro a b he
    have hn := congrArg Attribute.name he
    have hv := congrArg Attribute.value he
    rw [value_toAttribute, value_toAttribute] at hv
    exact Prod.ext hn hv
  obtain ⟨n, l, e⟩ := t
  obtain ⟨n', l', e'⟩ := u
  have hname : n = n' := congrArg OpenTag.name h
  have hslash : e = e' := congrArg OpenTag.selfClosing h
  have hmap : l.map toAttribute = l'.map toAttribute := congrArg OpenTag.attributes h
  have hl : l = l' := List.map_inj_right hattribute |>.1 hmap
  rw [hname, hl, hslash]

/-! ## Plain tags as tokens -/

theorem Legible.whole_openToken {t : PlainTag} (h : t.Legible) : t.openToken.Whole := by
  have hwhole := h.spelled.whole
  rwa [written_spelled] at hwhole

theorem Legible.whole_closeToken {t : PlainTag} (h : t.Legible) : t.closeToken.Whole := by
  have hstop : '>' ∉ '/' :: t.name := by
    rw [List.mem_cons, not_or]
    exact ⟨by decide, fun hm => (h.name _ hm).2 (by decide)⟩
  have hinside : Markup.IsInside .closeTag ('/' :: t.name) :=
    ⟨hstop, fun hp => absurd (List.cons_prefix_cons.1 hp).1 (by decide), rfl⟩
  exact Markup.next?_tag hinside

theorem whole_openToken {t : PlainTag} (h : t.WellFormed) : t.openToken.Whole := h.legible.whole_openToken

theorem whole_closeToken {t : PlainTag} (h : t.WellFormed) : t.closeToken.Whole := h.legible.whole_closeToken

end PlainTag

end MarkupLens
