/-
Cutting markup that was put together from tokens. A token is whole if it is
cut off the front of any markup it stands in front of, or is a run of text;
whole tokens put together are cut into the same tokens again, with adjacent
runs of text as one (`tokens_source`).
-/
import MarkupLens.Markup.Token
import MarkupLens.Proofs.Text.Basic

namespace MarkupLens

open Text (after?)

namespace Token

/-- A run of text put in front of tokens: it grows the run that is there, and an empty one is no token. -/
def glue (s : Text) : List Token → List Token
  | [] => if s = [] then [] else [⟨.text, s⟩]
  | t :: ts =>
    if t.kind = .text then ⟨.text, s ++ t.text⟩ :: ts
    else if s = [] then t :: ts
    else ⟨.text, s⟩ :: t :: ts

/-- Adjacent runs of text as one token, empty runs left out. -/
def join : List Token → List Token
  | [] => []
  | t :: ts => if t.kind = .text then glue t.text (join ts) else t :: join ts

theorem source_glue (s : Text) (ts : List Token) : source (glue s ts) = s ++ source ts := by
  cases ts with
  | nil => by_cases h : s = [] <;> simp [glue, h]
  | cons t ts =>
    by_cases ht : t.kind = .text
    · simp [glue, ht]
    · by_cases h : s = [] <;> simp [glue, ht, h]

theorem filter_glue {p : Token → Bool} (hp : ∀ u, p ⟨.text, u⟩ = false) (s : Text) (ts : List Token) :
    (glue s ts).filter p = ts.filter p := by
  cases ts with
  | nil => by_cases h : s = [] <;> simp [glue, h, hp]
  | cons t ts =>
    obtain ⟨k, u⟩ := t
    by_cases hk : k = .text
    · subst hk
      simp [glue, hp]
    · by_cases h : s = [] <;> simp [glue, hk, h, hp]

theorem filter_join {p : Token → Bool} (hp : ∀ u, p ⟨.text, u⟩ = false) (ts : List Token) :
    (join ts).filter p = ts.filter p := by
  induction ts with
  | nil => rfl
  | cons t ts ih =>
    obtain ⟨k, u⟩ := t
    by_cases hk : k = .text
    · subst hk
      simp [join, filter_glue hp, hp, ih]
    · simp [join, hk, List.filter_cons, ih]

/-- A token that is cut off whatever it stands in front of, or a run without `<`. -/
def Whole (t : Token) : Prop :=
  if t.kind = .text then '<' ∉ t.text else ∀ rest, Markup.next? (t.text ++ rest) = some (t, rest)

end Token

namespace Markup

open Token (glue join Whole)

/-- Where the markup does not start with a run of text, the first token is none. -/
theorem next?_kind_of_angle {s rest : Text} {t : Token} (h : next? ('<' :: s) = some (t, rest)) :
    t.kind ≠ .text := by
  simp only [next?, if_true] at h
  split at h
  · simp only [Option.some.injEq, Prod.mk.injEq] at h
    rw [← h.1]
    simp
  · split at h
    · rename_i kind hk
      simp only [Option.map_eq_some_iff, Prod.mk.injEq] at h
      obtain ⟨p, _, rfl, _⟩ := h
      rintro rfl
      unfold tagKind? at hk
      repeat' split at hk
      all_goals simp at hk
    · simp only [Option.some.injEq, Prod.mk.injEq] at h
      rw [← h.1]
      simp

theorem takeWhile_ne_of_not_mem {c : Char} {s : Text} (h : c ∉ s) (r : Text) :
    (s ++ r).takeWhile (· != c) = s ++ r.takeWhile (· != c) ∧ (s ++ r).dropWhile (· != c) = r.dropWhile (· != c) := by
  have hs : ∀ d ∈ s, (d != c) = true := by
    intro d hd
    simp only [bne_iff_ne, ne_eq]
    rintro rfl
    exact h hd
  exact ⟨List.takeWhile_append_of_pos hs, List.dropWhile_append_of_pos hs⟩

theorem tokens_append_text {s : Text} (h : '<' ∉ s) (r : Text) : tokens (s ++ r) = glue s (tokens r) := by
  cases s with
  | nil =>
    rcases hr : tokens r with _ | ⟨t, ts⟩
    · simpa [glue] using hr
    · by_cases ht : t.kind = .text
      · cases t; simp only at ht; subst ht; simpa [glue] using hr
      · simpa [glue, ht] using hr
  | cons c s =>
    have hc : c ≠ '<' := fun he => h (by simp [he])
    have hs : '<' ∉ s := fun hm => h (by simp [hm])
    have hn : next? (c :: s ++ r) = some (⟨.text, c :: (s ++ r.takeWhile (· != '<'))⟩, r.dropWhile (· != '<')) := by
      obtain ⟨h1, h2⟩ := takeWhile_ne_of_not_mem hs r
      simp only [List.cons_append, next?, hc, if_false, h1, h2]
    rw [tokens_of_next? hn]
    cases r with
    | nil => simp [tokens_of_next?_none (s := []) rfl, glue]
    | cons d r =>
      by_cases hd : d = '<'
      · subst hd
        simp only [bne_self_eq_false, Bool.false_eq_true, not_false_eq_true, List.takeWhile_cons_of_neg,
          List.append_nil, List.dropWhile_cons_of_neg]
        cases hr : next? ('<' :: r) with
        | none => simp [tokens_of_next?_none hr, glue]
        | some p =>
          obtain ⟨t, rest⟩ := p
          have ht := next?_kind_of_angle hr
          simp [tokens_of_next? hr, glue, ht]
      · have hp : (d != '<') = true := by simpa using hd
        have hr : next? (d :: r) = some (⟨.text, d :: r.takeWhile (· != '<')⟩, r.dropWhile (· != '<')) := by
          simp only [next?, hd, if_false]
        simp [tokens_of_next? hr, glue, hp]

/-- **Whole tokens put together are cut into themselves again,** adjacent runs of text as one. -/
theorem tokens_source {ts : List Token} (h : ∀ t ∈ ts, Whole t) : tokens (Token.source ts) = join ts := by
  induction ts with
  | nil => exact tokens_of_next?_none rfl
  | cons t ts ih =>
    have ht : Whole t := h t (by simp)
    have ih' := ih fun u hu => h u (by simp [hu])
    rw [Token.source_cons, join]
    unfold Whole at ht
    split at ht
    · rename_i hk
      rw [tokens_append_text ht, ih', if_pos hk]
    · rename_i hk
      rw [tokens_of_next? (ht _), ih', if_neg hk]

/-! ## Whole tokens -/

theorem through?_append {stop : Char} {s : Text} (h : stop ∉ s) (r : Text) :
    through? stop (s ++ stop :: r) = some (s ++ [stop], r) := by
  induction s with
  | nil => simp [through?]
  | cons c s ih =>
    have hc : c ≠ stop := fun he => h (by simp [he])
    have hs : stop ∉ s := fun hm => h (by simp [hm])
    simp [through?, hc, ih hs]

/-- An ending `-->` is met first where a comment's text holds none. -/
theorem commentBody_append_ending {s : Text} (h : Text.holds "-->" s = false) (r : Text) :
    commentBody (s ++ ("-->" ++ r)) = (s ++ "-->", r) := by
  have hs : ¬ "-->".toList <:+: s := fun hi => by rw [Text.holds_iff.2 hi] at h; cases h
  clear h
  induction s with
  | nil => simp [commentBody, after?]
  | cons c s ih =>
    have hnone : after? "-->" (c :: (s ++ ("-->" ++ r))) = none := by
      rw [Text.after?_eq_none]
      rintro ⟨u, hu⟩
      -- an ending that starts inside the text is inside it as a whole: `-` and `--` are not followed by `>`
      rcases s with _ | ⟨d, _ | ⟨e, s⟩⟩
      · simp at hu
      · simp at hu
      · simp only [List.cons_append, String.reduceToList, List.nil_append, List.cons.injEq] at hu
        obtain ⟨rfl, rfl, rfl, -⟩ := hu
        exact hs ⟨[], s, rfl⟩
    have hs' : ¬ "-->".toList <:+: s := fun hi => hs (hi.trans (List.suffix_cons c s).isInfix)
    rw [List.cons_append, commentBody, hnone]
    simp only [ih hs', List.cons_append]

end Markup

end MarkupLens
