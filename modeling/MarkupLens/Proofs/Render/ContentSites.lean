/-
Content directives, wherever rendering comes to them, in markup of any style.
One that gives way to its marker has a body between its tag and a close tag,
and what is written there is the text bound to it, or else the lone comment or
the body rendered; the tag of a void element, or one that closes itself, has no
body, and its marker is all that is written (`renderTokens_content_site`). One
whose body no close tag bounds stays as written (`renderTokens_unbounded`).
-/
import MarkupLens.Proofs.Render.EditedTag

namespace MarkupLens

open Text (allBlank trimEnd isBlank)
open Markup (splitAtClose)

variable {table : DirectiveTable} {c : Context}

namespace Text

theorem isBlank_of_isWordChar {d : Char} (h : isWordChar d = true) : isBlank d = false := by
  have hall : ∀ n ∈ [9, 10, 11, 12, 13, 0x20, 0x85, 0xa0, 0x1680, 0x2000, 0x2001, 0x2002, 0x2003, 0x2004, 0x2005, 0x2006,
      0x2007, 0x2008, 0x2009, 0x200a, 0x2028, 0x2029, 0x202f, 0x205f, 0x3000], isWordChar (Char.ofNat n) = false := by
    decide +kernel
  cases hb : isBlank d with
  | false => rfl
  | true =>
    have hmem : d.toNat ∈ [9, 10, 11, 12, 13, 0x20, 0x85, 0xa0, 0x1680, 0x2000, 0x2001, 0x2002, 0x2003, 0x2004, 0x2005,
        0x2006, 0x2007, 0x2008, 0x2009, 0x200a, 0x2028, 0x2029, 0x202f, 0x205f, 0x3000] := by
      simp only [isBlank, Bool.or_eq_true, Bool.and_eq_true, decide_eq_true_eq, beq_iff_eq] at hb
      simp only [List.mem_cons, List.not_mem_nil, or_false]
      omega
    have hnot := hall _ hmem
    rw [Char.ofNat_toNat, h] at hnot
    cases hnot

end Text

/-- The text of a directive does not end in a blank: its key does not, nor does a quote. -/
theorem Site.endsBlank_written {a : Attribute} {s : Site} (h : Site.of? table a = some s) (hshaped : a.Shaped) :
    Render.endsBlank a.written = false := by
  obtain ⟨-, -, hvalue, hword⟩ := Site.of?_eq_some.1 h
  obtain ⟨hne, hchars⟩ := Text.isWord_iff.1 hword
  obtain ⟨gap, name, assigned⟩ := a
  cases assigned with
  | none => cases hvalue
  | some v =>
    obtain ⟨sign, opening, value, closing⟩ := v
    obtain rfl : value = s.key := Option.some.inj hvalue
    obtain ⟨-, hform⟩ := hshaped.assigned _ rfl
    have hkey : Render.endsBlank s.key = false := by
      obtain ⟨u, d, hd⟩ := List.eq_nil_or_concat s.key |>.resolve_left hne
      rw [List.concat_eq_append] at hd
      have hb := Text.isBlank_of_isWordChar (hchars d (by simp [hd]))
      simp [Render.endsBlank, hd, hb]
    have hsplit : Attribute.written ⟨gap, name, some ⟨sign, opening, s.key, closing⟩⟩ =
        (name ++ (sign ++ opening)) ++ (s.key ++ closing) := by
      simp [Attribute.written, Assignment.written]
    rw [hsplit, Render.endsBlank_append (by simp [hne])]
    rcases hform with ⟨q, hq, -, -, rfl | rfl⟩ | ⟨-, rfl, -⟩
    · rw [Render.endsBlank_append (by simp)]
      rcases hq with rfl | rfl <;> rfl
    · rwa [List.append_nil]
    · rwa [List.append_nil]

namespace Render

/-! ## What splicing keeps -/

/-- What stands in front of the edits stays there, if no blank at its end can be taken off. -/
theorem splice_prefix {kept : Text} (hkept : endsBlank kept = false) (hne : kept ≠ []) (cut : Bool) (more ending : Text)
    (l : List (Attribute × Edit)) : kept <+: splice cut (kept ++ more) ending l := by
  have hblank := allBlank_of_endsBlank hkept hne
  induction l generalizing cut more with
  | nil => exact ⟨more ++ ending, by simp [splice]⟩
  | cons p l ih =>
    obtain ⟨a, e⟩ := p
    cases e with
    | keep =>
      simp only [splice, List.append_assoc]
      exact ih cut _
    | replace text =>
      simp only [splice, List.append_assoc]
      exact List.prefix_append _ _
    | remove =>
      simp only [splice, Text.allBlank_append, hblank, Bool.false_and, Bool.and_false, Bool.false_eq_true, if_false]
      rw [List.append_assoc]
      have htrim : kept <+: trimEnd (kept ++ (more ++ a.gap)) := by
        cases hb : allBlank (more ++ a.gap) with
        | true =>
          have htrimmed : trimEnd (kept ++ (more ++ a.gap)) = kept := by
            rw [Text.trimEnd_append_of_allBlank _ hb, trimEnd_of_endsBlank hkept]
          exact ⟨[], (List.append_nil kept).trans htrimmed.symm⟩
        | false =>
          rw [Text.trimEnd_append_of_not_allBlank _ hb]
          exact List.prefix_append _ _
      exact htrim.trans (List.prefix_append _ _)

/-- An attribute that is kept stands in the text that is spliced. -/
theorem infix_splice {a : Attribute} (ha : endsBlank a.written = false) (hne : a.written ≠ []) {l : List (Attribute × Edit)}
    (hmem : (a, .keep) ∈ l) (cut : Bool) (kept ending : Text) : a.written <:+: splice cut kept ending l := by
  induction l generalizing cut kept with
  | nil => cases hmem
  | cons p l ih =>
    rcases List.mem_cons.1 hmem with rfl | hlater
    · have hend : endsBlank (kept ++ a.gap ++ a.written) = false := by rw [endsBlank_append hne, ha]
      have hpre := splice_prefix hend (by simp [hne]) cut [] ending l
      rw [List.append_nil] at hpre
      rw [splice]
      exact (List.suffix_append _ _).isInfix.trans hpre.isInfix
    · obtain ⟨b, e⟩ := p
      cases e with
      | keep => exact ih hlater _ _
      | replace text => exact (ih hlater _ _).trans (List.suffix_append _ _).isInfix
      | remove =>
        simp only [splice]
        split
        · exact ih hlater _ _
        · exact (ih hlater _ _).trans (List.suffix_append _ _).isInfix

theorem edit_trigger {a : Attribute} {s : Site} (h : Site.of? table a = some s) (c : Context) (sites : List Site) :
    edit c (written sites) a none = .keep := by
  have hnot : (written sites).any (Text.sameName a.name) = false := by
    refine List.any_eq_false.2 fun name hn => ?_
    obtain ⟨s', -, htarget⟩ := List.mem_filterMap.1 hn
    rw [(Site.of?_eq_some.1 h).2.1, DirectiveKind.sameName_trigger_target htarget]
    exact Bool.false_ne_true
  simp [edit, hnot]

/-! ## Content -/

variable {t : Token} {rest : List Token} {tag : OpenTag} {attributes : SitedAttributes}

/-- What takes the place of the body of a content element. -/
def bodyShown (table : DirectiveTable) (c : Context) (s : Site) (body : Enclosed) : Text :=
  ((s.text? c).or (loneComment? none body.inner)).getD (renderTokens table c body.inner)

/-- **Content that gives way to its marker** is that of a tag without a body, or its body is replaced up to the close
tag. -/
theorem renderTokens_content_site (h : (plan table t rest).edited? = some (tag, attributes)) {s : Site}
    (hs : attributes.content? = some s) (c : Context) :
    (tag.hasBody = false ∧ renderTokens table c (t :: rest) = editTag c tag attributes ++ renderTokens table c rest) ∨
      ∃ body, tag.hasBody = true ∧ splitAtClose tag.name 0 rest = some body ∧
        renderTokens table c (t :: rest) = editTag c tag attributes ++ bodyShown table c s body ++ body.close.text ++
          renderTokens table c body.after := by
  rcases content_cases h hs with ⟨hb, hplan⟩ | ⟨body, hb, hclose, hplan⟩
  · exact .inl ⟨hb, renderTokens_tag hplan⟩
  · exact .inr ⟨body, hb, hclose, renderTokens_content hplan⟩

/-- **Content that no close tag bounds** stays as written, on a tag with a body. -/
theorem renderTokens_unbounded (hb : (OpenTag.scan t.text).hasBody = true)
    (hopen : splitAtClose (OpenTag.scan t.text).name 0 rest = none) {a : Attribute}
    (ha : a ∈ (OpenTag.scan t.text).attributes) {s : Site} (hs : Site.of? table a = some s) (hcontent : s.isContent = true)
    (c : Context) : ∃ out, renderTokens table c (t :: rest) = out ++ renderTokens table c rest ∧ a.written <:+: out := by
  cases h : (plan table t rest).edited? with
  | none => exact ⟨t.text, renderTokens_copy (edited?_eq_none.1 h), OpenTag.infix_of_mem ha⟩
  | some edited =>
    obtain ⟨tag, attributes⟩ := edited
    have hplan := plan_of_edited? h
    obtain ⟨-, rfl, rfl, hne⟩ := edited?_plan h
    have hnone : bodyOf? (OpenTag.scan t.text) rest = none := by rw [bodyOf?, hb, if_pos rfl, hopen]
    have hgiven := content_given_up hb hopen ha hs hcontent
    have hshaped := ((OpenTag.readable_scan t.text).1.forms.1 a ha).2
    obtain ⟨d, r, hw, -⟩ := hshaped.written_eq
    generalize sitesOf table (OpenTag.scan t.text) rest = attributes at *
    have hempty : attributes.sites.isEmpty = false := by simpa using hne
    have htag : plan table t rest = .tag (OpenTag.scan t.text) attributes := by
      rw [hplan, hnone] at h ⊢
      cases hc : attributes.container? with
      | none => simp [planSites, hempty, hc]
      | some site => simp [planSites, hempty, hc, Plan.edited?] at h
    refine ⟨_, renderTokens_tag htag, infix_splice (Site.endsBlank_written hs hshaped) (by simp [hw]) ?_ _ _ _⟩
    exact List.mem_map.2 ⟨(a, none), hgiven, by rw [edit_trigger hs]⟩

end Render

end MarkupLens
