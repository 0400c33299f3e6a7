/-
Blank characters. Two sets are in use: the five ASCII characters that
separate the parts of a tag (`isSpace`), and the characters with the
Unicode property White_Space (`isBlank`), which trimming removes.
-/
import MarkupLens.Text.Basic

namespace MarkupLens.Text

/-- Space, tab, line feed, form feed or carriage return. -/
def isSpace (c : Char) : Bool := c == ' ' || c == '\t' || c == '\n' || c == '\x0c' || c == '\r'

/-- The characters with the Unicode property White_Space. -/
def isBlank (c : Char) : Bool :=
  let n := c.toNat
  (9 ≤ n && n ≤ 13) || n == 0x20 || n == 0x85 || n == 0xa0 || n == 0x1680 || (0x2000 ≤ n && n ≤ 0x200a) ||
    n == 0x2028 || n == 0x2029 || n == 0x202f || n == 0x205f || n == 0x3000

theorem isBlank_of_isSpace {c : Char} (h : isSpace c = true) : isBlank c = true := by
  simp only [isSpace, Bool.or_eq_true, beq_iff_eq] at h
  rcases h with (((rfl | rfl) | rfl) | rfl) | rfl <;> decide

/-- The text holds nothing but blank characters. -/
def allBlank (s : Text) : Bool := s.all isBlank

/-- The text without blank characters at its start. -/
def trimStart (s : Text) : Text := s.dropWhile isBlank

/-- The text without blank characters at its end. -/
def trimEnd : Text → Text
  | [] => []
  | c :: s => if allBlank (c :: s) then [] else c :: trimEnd s

/-- The text without blank characters at either end. -/
def trim (s : Text) : Text := trimEnd (trimStart s)

theorem trimEnd_of_allBlank {s : Text} (h : allBlank s = true) : trimEnd s = [] := by
  cases s with
  | nil => rfl
  | cons c s => simp [trimEnd, h]

/-- Trimming the end takes off a blank text and leaves an end that is not blank. -/
theorem trimEnd_append_blank (s : Text) : ∃ b, allBlank b = true ∧ s = trimEnd s ++ b := by
  induction s with
  | nil => exact ⟨[], rfl, rfl⟩
  | cons c s ih =>
    by_cases h : allBlank (c :: s) = true
    · exact ⟨c :: s, h, by simp [trimEnd, h]⟩
    · obtain ⟨b, hb, he⟩ := ih
      refine ⟨b, hb, ?_⟩
      simp only [trimEnd, h, Bool.false_eq_true, if_false, List.cons_append]
      rw [← he]

end MarkupLens.Text
