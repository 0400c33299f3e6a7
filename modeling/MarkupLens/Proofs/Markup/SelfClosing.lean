/-
Tags that close themselves. The scan takes a slash at the end of a tag for
the element's only if it belongs to no attribute; the quick test on the text
of a tag takes any last slash for it. So the two agree but for tags whose
last attribute ends in that slash, as in `<p title=x/>`, which open a body
that the quick test does not see (`opensBody_eq`).
-/
import MarkupLens.Markup.Nesting
import MarkupLens.Proofs.Markup.Scanning

namespace MarkupLens

open Text (isSpace allBlank trimEnd dropStart dropEnding)

namespace Text

/-- The last character is a slash, blanks apart. -/
def lastSlash (s : Text) : Bool := (trimEnd s).getLast? == some '/'

@[simp] theorem lastSlash_of_allBlank {s : Text} (h : allBlank s = true) : lastSlash s = false := by
  rw [lastSlash, trimEnd_of_allBlank h]
  rfl

theorem lastSlash_append (s t : Text) : lastSlash (s ++ t) = if allBlank t then lastSlash s else lastSlash t := by
  split
  · rename_i ht
    rw [lastSlash, trimEnd_append_of_allBlank s ht, lastSlash]
  · rename_i ht
    have ht' : allBlank t = false := by simpa using ht
    obtain ⟨c, hc⟩ := Option.ne_none_iff_exists'.1 (mt List.getLast?_eq_none_iff.1 (trimEnd_ne_nil ht'))
    rw [lastSlash, trimEnd_append_of_not_allBlank s ht', List.getLast?_append, lastSlash, hc, Option.some_or]

theorem lastSlash_of_not_mem {s : Text} (h : '/' ∉ s) : lastSlash s = false := by
  rw [lastSlash, beq_eq_false_iff_ne]
  exact fun hl => h ((trimEnd_isPrefix s).subset (List.mem_of_getLast? hl))

theorem dropEnding_cons {c d : Char} (h : c ≠ d) (s : Text) : dropEnding [d] (c :: s) = c :: dropEnding [d] s := by
  rcases List.eq_nil_or_concat s with rfl | ⟨t, e, rfl⟩
  · simp [dropEnding, before?, after?, Ne.symm h]
  · rw [List.concat_eq_append]
    by_cases he : e = d
    · subst he
      rw [← List.cons_append, dropEnding_append_self, dropEnding_append_self]
    · simp [dropEnding, before?, after?, Ne.symm he]

end Text

open Text (lastSlash lastSlash_append lastSlash_of_allBlank)

namespace OpenTag

theorem closesItself_eq (gap rest : Text) : closesItself gap rest = (allBlank rest && lastSlash gap) := rfl

/-- An attribute ends in the last slash of a tag. -/
def attributeHoldsSlash : List Attribute → (gap : Text) → Bool
  | [], _ => false
  | a :: rest, gap =>
    (lastSlash a.written && allBlank (writtenAttributes rest ++ gap)) || attributeHoldsSlash rest gap

/-- The last slash of the tag is part of an attribute. -/
def holdsSlash (tag : OpenTag) : Bool := attributeHoldsSlash tag.attributes tag.gap

/-- **A last slash behind the name of a tag** either closes the tag or is an attribute's. -/
theorem lastSlash_inside (l : List Attribute) (gap : Text) :
    lastSlash (writtenAttributes l ++ gap) = (closes l gap || attributeHoldsSlash l gap) ∧
      (closes l gap = true → attributeHoldsSlash l gap = false) := by
  induction l with
  | nil => exact ⟨by simp [closes, attributeHoldsSlash, closesItself_eq, writtenAttributes], by simp [attributeHoldsSlash]⟩
  | cons a l ih =>
    obtain ⟨ih1, ih2⟩ := ih
    rw [writtenAttributes_cons, List.append_assoc, List.append_assoc, closes, attributeHoldsSlash, closesItself_eq,
      lastSlash_append, lastSlash_append]
    generalize writtenAttributes l ++ gap = rest at ih1 ⊢
    -- the last slash is in front of the attribute, in it, or behind it, as what follows is blank or not
    cases hr : allBlank rest with
    | false => simpa [Text.allBlank_append, hr] using ⟨ih1, ih2⟩
    | true =>
      rw [lastSlash_of_allBlank hr] at ih1
      obtain ⟨h1, h2⟩ := Bool.or_eq_false_iff.1 ih1.symm
      cases ha : allBlank a.written with
      | false => simp [Text.allBlank_append, hr, ha, h1, h2]
      | true => simp [Text.allBlank_append, hr, ha, h1, h2]

theorem opening_scan (raw : Text) : (scan raw).opening = [] ∧ dropStart "<" raw = raw ∨
    (scan raw).opening = ['<'] ∧ ∃ s, raw = '<' :: s ∧ dropStart "<" raw = s := by
  have hopening : (scan raw).opening = raw.take (raw.length - (dropStart "<" raw).length) := rfl
  cases h : Text.after? "<" raw with
  | none =>
    have hs : dropStart "<" raw = raw := by simp only [dropStart, h, Option.getD_none]
    rw [hopening, hs, Nat.sub_self]
    exact .inl ⟨rfl, rfl⟩
  | some s =>
    obtain rfl : raw = '<' :: s := Text.after?_eq_some.1 h
    have hs : dropStart "<" ('<' :: s) = s := Text.dropStart_append "<" s
    rw [hopening, hs, List.length_cons, Nat.add_sub_cancel_left]
    exact .inr ⟨rfl, s, rfl, rfl⟩

/-- The text of a tag, a `>` at its end apart, is its opening, its name, and what stands behind them. -/
theorem dropEnding_eq (raw : Text) : dropEnding ">" raw =
    (scan raw).opening ++ ((scan raw).name ++ (writtenAttributes (scan raw).attributes ++ (scan raw).gap)) := by
  have hinside : writtenAttributes (scan raw).attributes ++ (scan raw).gap =
      (dropEnding ">" (dropStart "<" raw)).dropWhile isNameChar := scanInside_written _
  have hname : (scan raw).name = (dropEnding ">" (dropStart "<" raw)).takeWhile isNameChar := rfl
  rw [hinside, hname, List.takeWhile_append_dropWhile]
  rcases opening_scan raw with ⟨ho, hs⟩ | ⟨ho, s, rfl, hs⟩
  · rw [ho, hs]
    rfl
  · have hend : dropEnding ">" ('<' :: s) = '<' :: dropEnding ">" s := Text.dropEnding_cons (by decide) s
    rw [ho, hs, hend]
    rfl

theorem lastSlash_dropEnding (raw : Text) :
    lastSlash (dropEnding ">" raw) = ((scan raw).selfClosing || (scan raw).holdsSlash) ∧
      ((scan raw).selfClosing = true → (scan raw).holdsSlash = false) := by
  have hinside := lastSlash_inside (scan raw).attributes (scan raw).gap
  rw [← (readable_scan raw).2] at hinside
  have hname : lastSlash (scan raw).name = false := by
    refine Text.lastSlash_of_not_mem fun hm => ?_
    have hc := List.mem_takeWhile_imp (p := isNameChar) hm
    simp [isNameChar] at hc
  have hopening : lastSlash (scan raw).opening = false := by
    rcases opening_scan raw with ⟨ho, -⟩ | ⟨ho, -⟩ <;> rw [ho] <;> rfl
  refine ⟨?_, hinside.2⟩
  rw [dropEnding_eq, lastSlash_append, lastSlash_append, hname, hopening, hinside.1]
  have hnone : allBlank (writtenAttributes (scan raw).attributes ++ (scan raw).gap) = true →
      ((scan raw).selfClosing || attributeHoldsSlash (scan raw).attributes (scan raw).gap) = false := by
    intro hb
    rw [← hinside.1, lastSlash_of_allBlank hb]
  split
  · rename_i hb
    rw [Text.allBlank_append, Bool.and_eq_true] at hb
    exact (hnone hb.2).symm
  · split
    · rename_i hb
      exact (hnone hb).symm
    · rfl

/-- **The quick test on the text of a tag** gives the verdict of the scan, but that it takes a slash in which the
last attribute ends for the element's; the names that the two read are the same. -/
theorem opensBody_eq (raw : Text) : Markup.openTagName raw = (scan raw).name ∧
    Markup.opensBody raw = ((scan raw).hasBody && !(scan raw).holdsSlash) := by
  refine ⟨rfl, ?_⟩
  obtain ⟨h1, h2⟩ := lastSlash_dropEnding raw
  have hquick : Markup.opensBody raw = (!lastSlash (dropEnding ">" raw) && !isVoid (scan raw).name) := rfl
  rw [hquick, h1, hasBody]
  revert h2
  cases (scan raw).selfClosing <;> cases (scan raw).holdsSlash <;> simp

/-- An unquoted value takes the slash, so the element has a body that the search for a close tag does not see: the
close tag of the inner element is taken for that of the outer one. -/
theorem opensBody_unquoted_slash :
    Markup.tokens "<p title=x/>" = [⟨.openTag, "<p title=x/>"⟩] ∧
      Markup.opensBody "<p title=x/>" ≠ (scan "<p title=x/>").hasBody ∧
      Markup.matchingClose? (Markup.tokens "<p><p title=x/>a</p>b</p>") 0 = some 3 := by
  decide +kernel

end OpenTag

end MarkupLens
