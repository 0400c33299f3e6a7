/-
Parts of texts by bytes. A text can be cut at a byte only between two
characters, so there is a slice between two bytes exactly if the text is a
part in front of it, the slice, and a part behind it (`slice?_eq_some`). What
is left of a text outside some ranges of bytes is told for texts put together
from parts (`outside_append`): a part within a range leaves nothing.
-/
import MarkupLens.Text.Utf8

namespace MarkupLens.Text

/-- What stands in front of a byte, and what stands from it on, if a character starts there or the text ends. -/
def splitAtByte? (n : Nat) : Text → Option (Text × Text)
  | [] => if n = 0 then some ([], []) else none
  | c :: s =>
    if n = 0 then some ([], c :: s)
    else if c.utf8Size ≤ n then (splitAtByte? (n - c.utf8Size) s).map fun p => (c :: p.1, p.2)
    else none

theorem splitAtByte?_append (u v : Text) : splitAtByte? (byteLength u) (u ++ v) = some (u, v) := by
  induction u with
  | nil => cases v <;> rfl
  | cons c u ih =>
    have hpos : 0 < c.utf8Size := c.utf8Size_pos
    rw [List.cons_append, byteLength_cons, splitAtByte?, if_neg (by omega), if_pos (Nat.le_add_right ..),
      Nat.add_sub_cancel_left, ih]
    rfl

theorem splitAtByte?_eq_some {n : Nat} {s u v : Text} :
    splitAtByte? n s = some (u, v) ↔ s = u ++ v ∧ byteLength u = n := by
  constructor
  · intro h
    induction s generalizing n u with
    | nil =>
      rw [splitAtByte?] at h
      split at h <;> cases h
      rename_i hn
      exact ⟨rfl, hn.symm⟩
    | cons c s ih =>
      rw [splitAtByte?] at h
      split at h
      · rename_i hn
        cases h
        exact ⟨rfl, hn.symm⟩
      · split at h
        · rename_i hle
          obtain ⟨⟨u', v'⟩, hsplit, heq⟩ := Option.map_eq_some_iff.1 h
          cases heq
          obtain ⟨rfl, hlength⟩ := ih hsplit
          refine ⟨rfl, ?_⟩
          rw [byteLength_cons, hlength]
          omega
        · cases h
  · rintro ⟨rfl, rfl⟩
    exact splitAtByte?_append u v

/-- The part of a text between two bytes, if both stand between characters. -/
def slice? (first last : Nat) (s : Text) : Option Text :=
  if first ≤ last then
    (splitAtByte? first s).bind fun p => (splitAtByte? (last - first) p.2).map (·.1)
  else none

/-- **A slice** is what stands behind that many bytes and reaches up to the last one. -/
theorem slice?_eq_some {first last : Nat} {s part : Text} : slice? first last s = some part ↔
    ∃ u v, s = u ++ part ++ v ∧ byteLength u = first ∧ byteLength u + byteLength part = last := by
  rw [slice?]
  constructor
  · intro h
    split at h
    · rename_i hle
      obtain ⟨⟨u, w⟩, hu, hpart⟩ := Option.bind_eq_some_iff.1 h
      obtain ⟨⟨part', v⟩, hv, rfl⟩ := Option.map_eq_some_iff.1 hpart
      obtain ⟨rfl, hfirst⟩ := splitAtByte?_eq_some.1 hu
      obtain ⟨rfl, hlast⟩ := splitAtByte?_eq_some.1 hv
      exact ⟨u, v, (List.append_assoc ..).symm, hfirst, by rw [hfirst, hlast]; omega⟩
    · cases h
  · rintro ⟨u, v, rfl, rfl, rfl⟩
    rw [if_pos (Nat.le_add_right ..), List.append_assoc, splitAtByte?_append, Option.bind_some, Nat.add_sub_cancel_left,
      splitAtByte?_append]
    rfl

/-- A part of a slice is a slice itself. -/
theorem slice?_part {first last : Nat} {s u part v : Text} (h : slice? first last s = some (u ++ part ++ v)) :
    first + byteLength u + byteLength part ≤ last ∧
      slice? (first + byteLength u) (first + byteLength u + byteLength part) s = some part := by
  obtain ⟨front, back, rfl, hfirst, hlast⟩ := slice?_eq_some.1 h
  rw [byteLength_append, byteLength_append] at hlast
  refine ⟨by omega, slice?_eq_some.2 ⟨front ++ u, v ++ back, ?_, ?_, ?_⟩⟩
  · simp only [List.append_assoc]
  · rw [byteLength_append, hfirst]
  · rw [byteLength_append, hfirst]

/-! ## What stands outside ranges -/

/-- What is left of a text that starts at a byte when the characters that start in one of the ranges are taken
out. -/
def outside (ranges : List (Nat × Nat)) (start : Nat) : Text → Text
  | [] => []
  | c :: s =>
    if ranges.any fun r => r.1 ≤ start && start < r.2 then outside ranges (start + c.utf8Size) s
    else c :: outside ranges (start + c.utf8Size) s

theorem outside_append (ranges : List (Nat × Nat)) (start : Nat) (s t : Text) :
    outside ranges start (s ++ t) = outside ranges start s ++ outside ranges (start + byteLength s) t := by
  induction s generalizing start with
  | nil => rfl
  | cons c s ih =>
    rw [List.cons_append, outside, outside, ih, byteLength_cons, Nat.add_assoc]
    split <;> rfl

theorem mem_of_mem_outside {ranges : List (Nat × Nat)} {start : Nat} {s : Text} {c : Char}
    (h : c ∈ outside ranges start s) : c ∈ s := by
  induction s generalizing start with
  | nil => exact h
  | cons d s ih =>
    rw [outside] at h
    split at h
    · exact List.mem_cons_of_mem _ (ih h)
    · rcases List.mem_cons.1 h with rfl | h
      · exact List.mem_cons_self
      · exact List.mem_cons_of_mem _ (ih h)

/-- A part within a range leaves nothing. -/
theorem outside_eq_nil {ranges : List (Nat × Nat)} {first last start : Nat} (hmem : (first, last) ∈ ranges)
    (hfirst : first ≤ start) {s : Text} (hlast : start + byteLength s ≤ last) : outside ranges start s = [] := by
  induction s generalizing start with
  | nil => rfl
  | cons c s ih =>
    have hpos : 0 < c.utf8Size := c.utf8Size_pos
    rw [byteLength_cons] at hlast
    have hany : (ranges.any fun r => r.1 ≤ start && start < r.2) = true := by
      refine List.any_eq_true.2 ⟨_, hmem, ?_⟩
      simp only [Bool.and_eq_true, decide_eq_true_eq]
      omega
    rw [outside, if_pos hany]
    exact ih (by omega) (by omega)

end MarkupLens.Text
