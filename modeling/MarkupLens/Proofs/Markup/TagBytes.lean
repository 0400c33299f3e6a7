/-
The bytes of a tag. Whatever text is scanned, its name, its attributes and
what encloses them are slices of it, one behind the other, and outside of
them stands nothing but spaces, slashes and stray `=` (`accountsFor_scan`).

An attribute stands behind what is written in front of it
(`getElem?_spansFrom`); all else is read off the text put together from its
parts (`written_scan`).
-/
import MarkupLens.Proofs.Markup.SelfClosing
import MarkupLens.Proofs.Text.Slices

namespace MarkupLens

open Text (isSpace byteLength byteLength_append byteLength_pos slice? outside)

namespace OpenTag

/-! ## The spans of attributes -/

@[simp] theorem length_spansFrom (start : Nat) (l : List Attribute) : (spansFrom start l).length = l.length := by
  induction l generalizing start with
  | nil => rfl
  | cons a l ih => rw [spansFrom, List.length_cons, ih, List.length_cons]

/-- **An attribute stands behind** the attributes in front of it and its gap. -/
theorem getElem?_spansFrom (start : Nat) (before : List Attribute) (a : Attribute) (after : List Attribute) :
    (spansFrom start (before ++ a :: after))[before.length]? =
      some (start + byteLength (writtenAttributes before ++ a.gap),
        start + byteLength (writtenAttributes before ++ a.gap) + byteLength a.written) := by
  induction before generalizing start with
  | nil => rfl
  | cons b before ih =>
    rw [List.cons_append, spansFrom, List.length_cons, List.getElem?_cons_succ, ih, writtenAttributes_cons]
    simp only [byteLength_append, Nat.add_assoc]

theorem exists_of_mem_zip_spansFrom {start : Nat} {l : List Attribute} {a : Attribute} {span : Nat × Nat}
    (h : (a, span) ∈ l.zip (spansFrom start l)) : ∃ before after, l = before ++ a :: after ∧
      span.1 = start + byteLength (writtenAttributes before ++ a.gap) ∧ span.2 = span.1 + byteLength a.written := by
  obtain ⟨i, hi⟩ := List.mem_iff_getElem?.1 h
  obtain ⟨ha, hspan⟩ := List.getElem?_zip_eq_some.1 hi
  obtain ⟨hlt, rfl⟩ := List.getElem?_eq_some_iff.1 ha
  have hl : l = l.take i ++ l[i] :: l.drop (i + 1) := by
    rw [← List.drop_eq_getElem_cons hlt, List.take_append_drop]
  have hspan' := getElem?_spansFrom start (l.take i) l[i] (l.drop (i + 1))
  rw [← hl, List.length_take_of_le hlt.le, hspan] at hspan'
  cases hspan'
  exact ⟨_, _, hl, rfl, rfl⟩

theorem start_le_of_mem_spansFrom {start : Nat} {l : List Attribute} {span : Nat × Nat} (h : span ∈ spansFrom start l) :
    start ≤ span.1 := by
  induction l generalizing start with
  | nil => cases h
  | cons a l ih =>
    rw [spansFrom] at h
    rcases List.mem_cons.1 h with rfl | h
    · exact Nat.le_add_right ..
    · have hle := ih h
      omega

/-- Attributes stand one behind the other. -/
theorem pairwise_spansFrom (start : Nat) (l : List Attribute) : (spansFrom start l).Pairwise fun p q => p.2 ≤ q.1 := by
  induction l generalizing start with
  | nil => exact List.Pairwise.nil
  | cons a l ih => exact List.pairwise_cons.2 ⟨fun _ => start_le_of_mem_spansFrom, ih _⟩

/-- Outside the attributes stand their gaps. -/
theorem outside_writtenAttributes {ranges : List (Nat × Nat)} {start : Nat} {l : List Attribute}
    (hranges : ∀ span ∈ spansFrom start l, span ∈ ranges) (hgap : ∀ a ∈ l, ∀ c ∈ a.gap, isGapChar c = true) :
    ∀ c ∈ outside ranges start (writtenAttributes l), isGapChar c = true := by
  induction l generalizing start with
  | nil => exact List.forall_mem_nil _
  | cons a l ih =>
    rw [spansFrom, List.forall_mem_cons] at hranges
    rw [List.forall_mem_cons] at hgap
    have hwritten : outside ranges (start + byteLength a.gap) a.written = [] :=
      Text.outside_eq_nil hranges.1 le_rfl le_rfl
    rw [writtenAttributes_cons, Text.outside_append, Text.outside_append, hwritten, List.append_nil, byteLength_append,
      ← Nat.add_assoc, List.forall_mem_append]
    exact ⟨fun c hc => hgap.1 c (Text.mem_of_mem_outside hc), ih hranges.2 hgap.2⟩

/-! ## The parts of a tag -/

/-- The byte at which the name of a tag ends. -/
def nameEnd (tag : OpenTag) : Nat := byteLength (tag.opening ++ tag.name)

/-- The bytes of the parts of a tag in a text: the `<` and the name, the `>`, and the attributes. -/
def partSpans (tag : OpenTag) (raw : Text) : List (Nat × Nat) :=
  (0, tag.nameEnd) :: (byteLength raw - byteLength tag.closing, byteLength raw) :: tag.spans

/-- An attribute stands at some bytes of a text. -/
structure StandsAt (a : Attribute) (span : Nat × Nat) (raw : Text) : Prop where
  slice : slice? span.1 span.2 raw = some a.written
  nonempty : span.1 < span.2
  /-- the name comes first -/
  name : ∃ last, last ≤ span.2 ∧ slice? span.1 last raw = some a.name
  /-- the value is a part of it -/
  value : ∀ v ∈ a.value, ∃ first last, span.1 ≤ first ∧ last ≤ span.2 ∧ slice? first last raw = some v

/-- A tag accounts for every byte of a text. -/
structure AccountsFor (tag : OpenTag) (raw : Text) : Prop where
  /-- the `<` is taken off if there is one -/
  opening : tag.opening = ['<'] ∧ raw.head? = some '<' ∨ tag.opening = [] ∧ raw.head? ≠ some '<'
  /-- the `>` is taken off if there is one -/
  closing : tag.closing = ['>'] ∧ raw.getLast? = some '>' ∨ tag.closing = [] ∧ raw.getLast? ≠ some '>'
  name : slice? (byteLength tag.opening) tag.nameEnd raw = some tag.name
  /-- each attribute has its bytes -/
  spans : tag.spans.length = tag.attributes.length
  attributes : ∀ p ∈ tag.attributes.zip tag.spans, StandsAt p.1 p.2 raw
  /-- what an attribute is called can be told apart from what stands around it -/
  names : ∀ a ∈ tag.attributes, a.name ≠ [] ∧ ∀ c ∈ a.name, isSpace c = false ∧ c ≠ '='
  /-- between the name and the `>` -/
  inside : ∀ span ∈ tag.spans, tag.nameEnd ≤ span.1 ∧ span.2 + byteLength tag.closing ≤ byteLength raw
  apart : tag.spans.Pairwise fun p q => p.2 ≤ q.1
  /-- all else is space, a slash, or an `=` -/
  rest : ∀ c ∈ outside (tag.partSpans raw) 0 raw, isGapChar c = true

theorem head?_opening (raw : Text) : (scan raw).opening = ['<'] ∧ raw.head? = some '<' ∨
    (scan raw).opening = [] ∧ raw.head? ≠ some '<' := by
  rcases opening_scan raw with ⟨hopening, hs⟩ | ⟨hopening, s, rfl, -⟩
  · refine .inr ⟨hopening, fun hhead => ?_⟩
    obtain ⟨s, rfl⟩ := List.head?_eq_some_iff.1 hhead
    have hdrop : Text.dropStart "<" ('<' :: s) = s := Text.dropStart_append "<" s
    exact List.cons_ne_self '<' s (hs.symm.trans hdrop)
  · exact .inl ⟨hopening, rfl⟩

theorem getLast?_closing (raw : Text) : (scan raw).closing = ['>'] ∧ raw.getLast? = some '>' ∨
    (scan raw).closing = [] ∧ raw.getLast? ≠ some '>' := by
  obtain ⟨u, hraw⟩ : ∃ u, raw = u ++ Text.dropStart "<" raw := ⟨_, (dropStart_suffix "<" raw).symm⟩
  have hclosing : (scan raw).closing =
      (Text.dropStart "<" raw).drop (Text.dropEnding ">" (Text.dropStart "<" raw)).length := rfl
  cases hbefore : Text.before? ">" (Text.dropStart "<" raw) with
  | some inner =>
    have hs : Text.dropStart "<" raw = inner ++ ['>'] := Text.before?_eq_some.1 hbefore
    have hend : Text.dropEnding ">" (inner ++ ['>']) = inner := Text.dropEnding_append_self ">" inner
    refine .inl ⟨?_, ?_⟩
    · rw [hclosing, hs, hend, List.drop_left]
    · rw [hraw, hs, ← List.append_assoc, List.getLast?_append]
      rfl
  | none =>
    have hend : Text.dropEnding ">" (Text.dropStart "<" raw) = Text.dropStart "<" raw := by
      rw [Text.dropEnding, hbefore, Option.getD_none]
    refine .inr ⟨by rw [hclosing, hend, List.drop_length], fun hlast => ?_⟩
    obtain ⟨t, ht⟩ := List.getLast?_eq_some_iff.1 hlast
    have hsome : ∃ inner, Text.dropStart "<" raw = inner ++ ['>'] := by
      rcases opening_scan raw with ⟨-, hs⟩ | ⟨-, s, hcons, hs⟩
      · exact ⟨t, hs.trans ht⟩
      · rw [hs]
        rw [hcons] at ht
        cases t with
        | nil => cases ht
        | cons c t => exact ⟨t, (List.cons.inj ht).2⟩
    obtain ⟨inner, hinner⟩ := hsome
    have hfound : Text.before? ">" (Text.dropStart "<" raw) = some inner := Text.before?_eq_some.2 hinner
    rw [hbefore] at hfound
    cases hfound

theorem exists_written_eq {a : Attribute} {v : Text} (h : v ∈ a.value) : ∃ u w, a.written = u ++ v ++ w := by
  obtain ⟨assigned, hassigned, rfl⟩ := Option.map_eq_some_iff.1 h
  rw [Attribute.written, hassigned]
  exact ⟨a.name ++ (assigned.sign ++ assigned.opening), assigned.closing, by simp [Assignment.written]⟩

variable {tag : OpenTag} {a : Attribute} {span : Nat × Nat}

/-- The text of an attribute is that between its bytes. -/
theorem slice_of_mem_zip (h : (a, span) ∈ tag.attributes.zip tag.spans) :
    slice? span.1 span.2 tag.written = some a.written := by
  obtain ⟨before, after, hattributes, hfirst, hlast⟩ := exists_of_mem_zip_spansFrom h
  refine Text.slice?_eq_some.2 ⟨tag.opening ++ tag.name ++ (writtenAttributes before ++ a.gap),
    writtenAttributes after ++ tag.gap ++ tag.closing, ?_, ?_, ?_⟩
  · simp only [written, hattributes, writtenAttributes_append, writtenAttributes_cons, List.append_assoc]
  · rw [byteLength_append, hfirst]
  · rw [byteLength_append, hlast, hfirst]

/-- An attribute of a tag stands at its bytes in the text of the tag. -/
theorem standsAt_of_mem_zip (h : (a, span) ∈ tag.attributes.zip tag.spans) (hname : a.name ≠ []) :
    StandsAt a span tag.written := by
  have hslice := slice_of_mem_zip h
  refine ⟨hslice, ?_, ?_, fun v hv => ?_⟩
  · obtain ⟨-, -, -, -, hlast⟩ := exists_of_mem_zip_spansFrom h
    have hpos : 0 < byteLength a.written :=
      byteLength_pos fun hnil => hname (List.append_eq_nil_iff.1 hnil).1
    omega
  · exact ⟨_, Text.slice?_part (u := []) hslice⟩
  · obtain ⟨u, w, hwritten⟩ := exists_written_eq hv
    rw [hwritten] at hslice
    obtain ⟨hle, hpart⟩ := Text.slice?_part hslice
    exact ⟨_, _, Nat.le_add_right .., hle, hpart⟩

theorem inside_of_mem_zip (h : (a, span) ∈ tag.attributes.zip tag.spans) :
    tag.nameEnd ≤ span.1 ∧ span.2 + byteLength tag.closing ≤ byteLength tag.written := by
  obtain ⟨before, after, hattributes, hfirst, hlast⟩ := exists_of_mem_zip_spansFrom h
  have htotal : byteLength tag.written = span.2 + byteLength (writtenAttributes after ++ tag.gap) +
      byteLength tag.closing := by
    simp only [written, hattributes, writtenAttributes_append, writtenAttributes_cons, byteLength_append, hlast, hfirst]
    omega
  exact ⟨by rw [hfirst, nameEnd]; omega, by omega⟩

/-- Outside the parts of a tag stand its gaps. -/
theorem outside_written (hgap : ∀ a ∈ tag.attributes, ∀ c ∈ a.gap, isGapChar c = true)
    (hlast : ∀ c ∈ tag.gap, isGapChar c = true) :
    ∀ c ∈ outside (tag.partSpans tag.written) 0 tag.written, isGapChar c = true := by
  have hfront : outside (tag.partSpans tag.written) 0 (tag.opening ++ tag.name) = [] := by
    refine Text.outside_eq_nil List.mem_cons_self le_rfl ?_
    rw [nameEnd, Nat.zero_add]
  have hback : outside (tag.partSpans tag.written)
      (byteLength (tag.opening ++ tag.name ++ writtenAttributes tag.attributes ++ tag.gap)) tag.closing = [] := by
    refine Text.outside_eq_nil (List.mem_cons_of_mem _ List.mem_cons_self) ?_ ?_
    · simp only [written, byteLength_append]
      omega
    · simp only [written, byteLength_append]
      omega
  have hspans : ∀ span ∈ tag.spans, span ∈ tag.partSpans tag.written :=
    fun span hspan => List.mem_cons_of_mem _ (List.mem_cons_of_mem _ hspan)
  -- the ranges are named in the text of the tag, which is now taken apart
  generalize tag.partSpans tag.written = ranges at hfront hback hspans ⊢
  rw [written, Text.outside_append, Text.outside_append, Text.outside_append, hfront, Nat.zero_add, Nat.zero_add,
    Nat.zero_add, hback, List.nil_append, List.append_nil, List.forall_mem_append]
  exact ⟨outside_writtenAttributes hspans hgap, fun c hc => hlast c (Text.mem_of_mem_outside hc)⟩

theorem slice_name (tag : OpenTag) : slice? (byteLength tag.opening) tag.nameEnd tag.written = some tag.name := by
  refine Text.slice?_eq_some.2
    ⟨tag.opening, writtenAttributes tag.attributes ++ tag.gap ++ tag.closing, ?_, rfl, ?_⟩
  · simp only [written, List.append_assoc]
  · rw [nameEnd, byteLength_append]

/-- A name is there, and neither space nor an `=` is part of it. -/
theorem name_of_mem_scan {raw : Text} (h : a ∈ (scan raw).attributes) :
    a.name ≠ [] ∧ ∀ c ∈ a.name, isSpace c = false ∧ c ≠ '=' := by
  obtain ⟨c, more, hname, hc, hmore⟩ := ((readable_scan raw).1.forms.1 a h).2.name
  obtain ⟨hspace, -, hsign⟩ := isSpace_of_not_isGapChar hc
  rw [hname]
  exact ⟨List.cons_ne_nil c more, List.forall_mem_cons.2 ⟨⟨hspace, hsign⟩, hmore⟩⟩

/-- Every span is that of an attribute. -/
theorem exists_mem_zip_of_mem_spans (h : span ∈ tag.spans) : ∃ a, (a, span) ∈ tag.attributes.zip tag.spans := by
  have hlength : tag.spans.length = tag.attributes.length := length_spansFrom ..
  obtain ⟨i, hi, rfl⟩ := List.mem_iff_getElem.1 h
  refine ⟨tag.attributes[i], List.mem_iff_getElem.2 ⟨i, ?_, List.getElem_zip⟩⟩
  rw [List.length_zip, hlength, Nat.min_self]
  omega

/-- **A scan accounts for every byte,** whatever text it is of. -/
theorem accountsFor_scan (raw : Text) : (scan raw).AccountsFor raw := by
  have hwritten : (scan raw).written = raw := written_scan raw
  obtain ⟨hforms, hgap⟩ := (readable_scan raw).1.forms
  constructor
  case opening => exact head?_opening raw
  case closing => exact getLast?_closing raw
  case name =>
    have hname := (scan raw).slice_name
    rwa [hwritten] at hname
  case spans => exact length_spansFrom ..
  case attributes =>
    intro p hp
    have hstands := standsAt_of_mem_zip hp (name_of_mem_scan (List.of_mem_zip hp).1).1
    rwa [hwritten] at hstands
  case names => exact fun a => name_of_mem_scan
  case inside =>
    intro span hspan
    obtain ⟨a, ha⟩ := exists_mem_zip_of_mem_spans hspan
    have hinside := inside_of_mem_zip ha
    rwa [hwritten] at hinside
  case apart => exact pairwise_spansFrom ..
  case rest =>
    have hrest := outside_written (fun a ha => (hforms a ha).1) hgap
    rwa [hwritten] at hrest

/-- A name may have an `=` in it, and an attribute may stand directly behind a quote. -/
example : (scan "<é= /a='ü>'b/ =/c//  >").name = "é=" ∧
    (scan "<é= /a='ü>'b/ =/c//  >").spans = [(6, 13), (13, 21)] := by
  decide +kernel

end OpenTag

end MarkupLens
