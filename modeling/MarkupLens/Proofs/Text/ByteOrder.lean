/-
The order of texts. Compared character by character, two texts stand in the
order of their UTF-8 bytes (`encode_lt_iff`): a character before another one
is written with bytes before the other's, whatever follows either of them.
-/
import MarkupLens.Text.Utf8
import Mathlib.Tactic.SplitIfs

namespace MarkupLens.Text

/-! ## Bytes below 256, in the form that `omega` can discharge -/

theorem byte_lt_iff {a b : Nat} (ha : a < 256) (hb : b < 256) : UInt8.ofNat a < UInt8.ofNat b ↔ a < b :=
  UInt8.ofNat_lt_iff_lt ha hb

theorem byte_eq_iff {a b : Nat} (ha : a < 256) (hb : b < 256) : UInt8.ofNat a = UInt8.ofNat b ↔ a = b := by
  rw [← UInt8.toNat_inj, UInt8.toNat_ofNat_of_lt' ha, UInt8.toNat_ofNat_of_lt' hb]

/-! ## Characters and texts -/

theorem scalar_lt (c : Char) : c.val.toNat < 0x110000 := by
  have h : c.val.toNat < 0xd800 ∨ 0xdfff < c.val.toNat ∧ c.val.toNat < 0x110000 := c.valid
  omega

/-- The bytes of a character stand in front of those of a later one, whatever follows. -/
theorem encodeChar_lt {c d : Char} (h : c < d) (s t : List UInt8) :
    String.utf8EncodeChar c ++ s < String.utf8EncodeChar d ++ t := by
  have hlt : c.val.toNat < d.val.toNat := h
  have hmax := scalar_lt d
  unfold String.utf8EncodeChar
  dsimp only
  generalize c.val.toNat = v at hlt
  generalize d.val.toNat = w at hlt hmax
  -- the digits to base 64, the first of which is small enough to be written as a whole
  have hv : v / 4096 = v / 64 / 64 ∧ v / 262144 = v / 64 / 64 / 64 ∧ v / 262144 % 8 = v / 262144 := by omega
  have hw : w / 4096 = w / 64 / 64 ∧ w / 262144 = w / 64 / 64 / 64 ∧ w / 262144 % 8 = w / 262144 := by omega
  rw [hv.2.2, hw.2.2, hv.2.1, hv.1, hw.2.1, hw.1]
  clear hv hw
  split_ifs <;>
    simp (disch := omega) only [List.cons_append, List.nil_append, List.cons_lt_cons_iff, byte_lt_iff, byte_eq_iff] <;>
    omega

theorem encode_lt_encode {a b : Text} (h : a < b) : encode a < encode b := by
  induction a generalizing b with
  | nil =>
    cases b with
    | nil => exact absurd h (List.lt_irrefl [])
    | cons d b =>
      have hne : encode (d :: b) ≠ [] := by simp [encode]
      obtain ⟨x, u, hu⟩ := List.exists_cons_of_ne_nil hne
      rw [hu]
      exact List.nil_lt_cons x u
  | cons c a ih =>
    cases b with
    | nil => exact absurd h (List.not_lt_nil (c :: a))
    | cons d b =>
      rcases List.cons_lt_cons_iff.1 h with hcd | ⟨rfl, hab⟩
      · exact encodeChar_lt hcd (encode a) (encode b)
      · exact List.append_left_lt (ih hab)

/-- **The order of texts** is that of their bytes. -/
theorem encode_lt_iff {a b : Text} : encode a < encode b ↔ a < b := by
  refine ⟨fun h => ?_, encode_lt_encode⟩
  rcases Std.lt_trichotomy a b with hlt | rfl | hgt
  · exact hlt
  · exact absurd h (List.lt_irrefl _)
  · exact absurd h (List.lt_asymm (encode_lt_encode hgt))

end MarkupLens.Text
