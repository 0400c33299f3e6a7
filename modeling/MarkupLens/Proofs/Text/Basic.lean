/-
Laws of the operations on texts that the theory of markup rests on: a known
start or ending comes off exactly, `holds` is the occurrence of a part, and
trimming takes nothing but blanks off a text's ends.
-/
import MarkupLens.Text.Blank

namespace MarkupLens.Text

/-! ## Known starts and endings -/

@[simp] theorem after?_append (start s : Text) : after? start (start ++ s) = some s :=
  after?_eq_some.2 rfl

@[simp] theorem dropStart_append (start s : Text) : dropStart start (start ++ s) = s := by
  simp [dropStart]

@[simp] theorem dropEnding_append_self (ending s : Text) : dropEnding ending (s ++ ending) = s := by
  have h : before? ending (s ++ ending) = some s := before?_eq_some.2 rfl
  simp [dropEnding, h]

theorem after?_eq_none {start s : Text} : after? start s = none ↔ ¬ start <+: s := by
  constructor
  · rintro h ⟨rest, rfl⟩
    simp at h
  · intro h
    cases he : after? start s with
    | none => rfl
    | some rest => exact absurd ⟨rest, (after?_eq_some.1 he).symm⟩ h

theorem holds_iff {part s : Text} : holds part s = true ↔ part <:+: s := by
  induction s with
  | nil => cases part <;> simp [holds]
  | cons c s ih =>
    simp only [holds, Bool.or_eq_true, List.isPrefixOf_iff_prefix, ih, List.infix_cons_iff]

/-! ## Spans -/

/-- A span of members of one sort goes as far as the first member of another sort. -/
theorem takeWhile_span {α : Type} {p : α → Bool} {s r : List α} (hs : ∀ c ∈ s, p c = true) (hr : ∀ c ∈ r.head?, p c = false) :
    (s ++ r).takeWhile p = s := by
  have hnil : r.takeWhile p = [] := by
    cases r with
    | nil => rfl
    | cons c r => simp [hr c rfl]
  rw [List.takeWhile_append_of_pos hs, hnil, List.append_nil]

theorem dropWhile_span {α : Type} {p : α → Bool} {s r : List α} (hs : ∀ c ∈ s, p c = true) (hr : ∀ c ∈ r.head?, p c = false) :
    (s ++ r).dropWhile p = r := by
  rw [List.dropWhile_append_of_pos hs]
  cases r with
  | nil => rfl
  | cons c r => simp [hr c rfl]

/-! ## Names -/

theorem length_eq_of_sameName {a b : Text} (h : sameName a b = true) : a.length = b.length := by
  simp only [sameName, beq_iff_eq] at h
  have := congrArg List.length h
  simpa using this

/-! ## Blanks -/

@[simp] theorem allBlank_nil : allBlank [] = true := rfl

@[simp] theorem allBlank_append (s t : Text) : allBlank (s ++ t) = (allBlank s && allBlank t) := by
  simp [allBlank]

theorem trimEnd_concat (s : Text) {c : Char} (h : isBlank c = false) : trimEnd (s ++ [c]) = s ++ [c] := by
  induction s with
  | nil => simp [trimEnd, allBlank, h]
  | cons d s ih =>
    have hb : allBlank (d :: (s ++ [c])) = false := by simp [allBlank, h]
    simp only [List.cons_append, trimEnd, hb, Bool.false_eq_true, if_false, ih]

theorem trimEnd_append_of_allBlank (s : Text) {b : Text} (h : allBlank b = true) :
    trimEnd (s ++ b) = trimEnd s := by
  induction s with
  | nil => simpa [trimEnd] using trimEnd_of_allBlank h
  | cons c s ih =>
    have hb : allBlank (c :: (s ++ b)) = allBlank (c :: s) := by
      rw [← List.cons_append, allBlank_append, h, Bool.and_true]
    simp only [List.cons_append, trimEnd, hb, ih]

theorem trimEnd_append_of_not_allBlank (s : Text) {t : Text} (h : allBlank t = false) :
    trimEnd (s ++ t) = s ++ trimEnd t := by
  induction s with
  | nil => rfl
  | cons c s ih =>
    have hb : allBlank (c :: (s ++ t)) = false := by
      rw [← List.cons_append, allBlank_append, h, Bool.and_false]
    simp only [List.cons_append, trimEnd, hb, Bool.false_eq_true, if_false, ih]

theorem trimEnd_ne_nil {s : Text} (h : allBlank s = false) : trimEnd s ≠ [] := by
  intro hnil
  obtain ⟨b, hb, hs⟩ := trimEnd_append_blank s
  rw [hnil, List.nil_append] at hs
  rw [hs, hb] at h
  cases h

/-- A trimmed end is a start of the text. -/
theorem trimEnd_isPrefix (s : Text) : trimEnd s <+: s := by
  obtain ⟨b, _, h⟩ := trimEnd_append_blank s
  exact ⟨b, h.symm⟩

theorem mem_of_mem_trim {c : Char} {s : Text} (h : c ∈ trim s) : c ∈ s := by
  have h1 : c ∈ trimStart s := (trimEnd_isPrefix _).subset h
  exact (List.dropWhile_suffix _).subset h1

theorem trim_of_allBlank {s : Text} (h : allBlank s = true) : trim s = [] := by
  have hd : trimStart (s ++ []) = trimStart [] := List.dropWhile_append_of_pos (List.all_eq_true.1 h)
  rw [List.append_nil] at hd
  rw [trim, hd]
  rfl

/-- Nothing comes off a trimmed text. -/
theorem trim_trim (s : Text) : trim (trim s) = trim s := by
  have hstart : trimStart (trim s) = trim s := by
    have hfirst := List.head?_dropWhile_not isBlank s
    rcases ht : trim s with _ | ⟨c, t⟩
    · rfl
    · obtain ⟨b, hb⟩ := trimEnd_isPrefix (trimStart s)
      have hhead : (s.dropWhile isBlank).head? = some c := by
        rw [show s.dropWhile isBlank = trim s ++ b from hb.symm, ht]
        rfl
      have hc : isBlank c = false := by simpa [hhead] using hfirst
      simp [trimStart, hc]
  obtain ⟨b, hb, hs⟩ := trimEnd_append_blank (trimStart s)
  calc trim (trim s) = trimEnd (trim s) := by rw [trim, hstart]
    _ = trimEnd (trim s ++ b) := (trimEnd_append_of_allBlank _ hb).symm
    _ = trim s := congrArg trimEnd hs.symm

/-- Nothing comes off a text without blanks. -/
theorem trim_of_forall {s : Text} (h : ∀ c ∈ s, isBlank c = false) : trim s = s := by
  have hd : trimStart s = s := by
    cases s with
    | nil => rfl
    | cons c s => simp [trimStart, h c (by simp)]
  rw [trim, hd]
  rcases List.eq_nil_or_concat s with rfl | ⟨t, c, rfl⟩
  · rfl
  · rw [List.concat_eq_append] at h ⊢
    exact trimEnd_concat t (h c (by simp))

end MarkupLens.Text
