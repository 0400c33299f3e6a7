/-
Boundaries between tokens. Where a token ends depends on little of what
follows it: on the text up to the next `<`, and on whether anything follows at
all, as a comment that is not closed goes on to the end; and where less
follows, it ends no later (`EndsLike`, `next?_congr`). So tokens in front of a
boundary stay the same whatever markup is put behind it that starts alike, or
is cut short (`tokens_congr`), and the markup between two boundaries is cut on
its own as it is cut where it stands (`tokens_source_between`). A tag ends at
its `>` whatever stands behind it (`next?_tag`).
-/
import MarkupLens.Proofs.Markup.Cutting
import Mathlib.Tactic.SplitIfs

namespace MarkupLens.Markup

open Text (after?)

/-! ## Starts of texts -/

/-- A start that lacks a character ends in front of it. -/
theorem prefix_of_not_mem {p u s : Text} {c : Char} (h : p <+: u ++ c :: s) (hc : c ∉ p) : p <+: u := by
  induction p generalizing u with
  | nil => exact List.nil_prefix
  | cons d p ih =>
    simp only [List.mem_cons, not_or] at hc
    cases u with
    | nil => exact absurd (List.cons_prefix_cons.1 h).1.symm hc.1
    | cons e u =>
      obtain ⟨rfl, hp⟩ := List.cons_prefix_cons.1 h
      exact List.cons_prefix_cons.2 ⟨rfl, ih hp hc.2⟩

/-- The text up to the first `<`. -/
def run (s : Text) : Text := s.takeWhile (· != '<')

@[simp] theorem run_nil : run [] = [] := rfl

@[simp] theorem run_angle (s : Text) : run ('<' :: s) = [] := by simp [run]

theorem run_eq_nil {s : Text} (h : run s = []) : s = [] ∨ ∃ u, s = '<' :: u := by
  cases s with
  | nil => exact .inl rfl
  | cons c s =>
    by_cases hc : c = '<'
    · exact .inr ⟨s, by rw [hc]⟩
    · simp [run, hc] at h

theorem run_eq_nil_iff {s : Text} : run s = [] ↔ ∀ c ∈ s.head?, c = '<' := by
  constructor
  · intro h
    rcases run_eq_nil h with rfl | ⟨u, rfl⟩ <;> simp
  · rcases s with _ | ⟨c, s⟩
    · exact fun _ => rfl
    · intro h
      rw [h c rfl, run_angle]

theorem prefix_run {p s : Text} (hp : '<' ∉ p) : p <+: run s ↔ p <+: s := by
  have hs : s = run s ++ s.dropWhile (· != '<') := List.takeWhile_append_dropWhile.symm
  constructor
  · exact fun h => h.trans (List.takeWhile_prefix _)
  · intro h
    rcases hd : s.dropWhile (· != '<') with _ | ⟨c, r⟩
    · rwa [hs, hd, List.append_nil] at h
    · have hc : c = '<' := by
        have := List.head?_dropWhile_not (· != '<') s
        rw [hd] at this
        simpa using this
      rw [hs, hd, hc] at h
      exact prefix_of_not_mem h hp

theorem run_congr {r r' : Text} (h : run r = run r') (u : Text) : run (u ++ r) = run (u ++ r') := by
  induction u with
  | nil => exact h
  | cons c u ih =>
    by_cases hc : c = '<'
    · simp [hc]
    · simpa [run, hc] using ih

theorem after?_eq_none_run {p s s' : Text} (hp : '<' ∉ p) (hrun : run s = run s') (h : after? p s = none) :
    after? p s' = none := by
  rw [Text.after?_eq_none] at h ⊢
  rwa [← prefix_run hp, ← hrun, prefix_run hp]

theorem tagKind?_cons (c : Char) (s : Text) : tagKind? (c :: s) =
    if c = '?' then some .declaration
    else if c = '/' then some .closeTag
    else if c = '!' then if s.head?.any Char.isAlpha then some .declaration else none
    else if c.isAlpha then some .openTag else none := by
  unfold tagKind?
  split
  · rename_i h
    cases h
    rfl
  · rename_i h
    cases h
    rfl
  · rename_i d r h
    cases h
    rfl
  · rename_i h1 h2 h3 h
    obtain ⟨rfl, rfl⟩ := List.cons.inj h
    by_cases he : c = '!'
    · subst he
      cases s with
      | nil => rfl
      | cons d s => exact absurd rfl (h3 d s rfl)
    · have h1' : c ≠ '?' := h1
      have h2' : c ≠ '/' := h2
      rw [if_neg h1', if_neg h2', if_neg he]
  · rename_i h
    cases h

theorem tagKind?_run (s : Text) : tagKind? (run s) = tagKind? s := by
  rcases s with _ | ⟨c, s⟩
  · rfl
  · by_cases hc : c = '<'
    · subst hc; rfl
    · have hr : run (c :: s) = c :: run s := by simp [run, hc]
      have hhead : (run s).head?.any Char.isAlpha = s.head?.any Char.isAlpha := by
        rcases s with _ | ⟨d, s⟩
        · rfl
        · by_cases hd : d = '<'
          · subst hd; rfl
          · simp [run, hd]
      rw [hr, tagKind?_cons, tagKind?_cons, hhead]

/-- Whatever token ends in front of the one text ends in front of the other: both start alike up to the first `<`, or
the other is a start of the one. -/
inductive EndsLike (r r' : Text) : Prop where
  | ofRun (h : run r = run r') (hnil : r = [] → r' = [])
  | ofPrefix (h : r' <+: r)

namespace EndsLike

variable {r r' : Text}

theorem nil (h : EndsLike r r') (hr : r = []) : r' = [] := by
  cases h with
  | ofRun _ hnil => exact hnil hr
  | ofPrefix h => exact List.prefix_nil.1 (hr ▸ h)

theorem run (h : EndsLike r r') (hr : Markup.run r = []) : Markup.run r' = [] := by
  cases h with
  | ofRun h _ => exact h.symm.trans hr
  | ofPrefix h =>
    obtain ⟨u, rfl⟩ := h
    cases r' with
    | nil => rfl
    | cons c r' =>
      have hc : c = '<' := by simpa [Markup.run, List.takeWhile_cons] using hr
      rw [hc, run_angle]

theorem comment (h : EndsLike r r') (hr : after? "!--" r = none) : after? "!--" r' = none := by
  cases h with
  | ofRun h _ => exact after?_eq_none_run (by decide) h hr
  | ofPrefix h => exact Text.after?_eq_none.2 fun hp => Text.after?_eq_none.1 hr (hp.trans h)

theorem kind (h : EndsLike r r') (hr : tagKind? r = none) : tagKind? r' = none := by
  cases h with
  | ofRun h _ => rw [← tagKind?_run, ← h, tagKind?_run, hr]
  | ofPrefix h =>
    obtain ⟨u, rfl⟩ := h
    rcases r' with _ | ⟨c, _ | ⟨d, s⟩⟩
    · rfl
    · rw [List.singleton_append, tagKind?_cons] at hr
      rw [tagKind?_cons]
      split_ifs at hr ⊢ <;> simp_all
    · rw [List.cons_append, tagKind?_cons] at hr
      rwa [tagKind?_cons]

theorem append (h : EndsLike r r') (u : Text) : EndsLike (u ++ r) (u ++ r') := by
  cases h with
  | ofRun h hnil =>
    refine .ofRun (run_congr h u) fun he => ?_
    rw [List.append_eq_nil_iff] at he ⊢
    exact ⟨he.1, hnil he.2⟩
  | ofPrefix h => exact .ofPrefix ((List.prefix_append_right_inj u).2 h)

end EndsLike

/-! ## Tags and declarations -/

theorem through?_eq_some {stop : Char} {s a b : Text} (h : through? stop s = some (a, b)) :
    ∃ u, a = u ++ [stop] ∧ stop ∉ u ∧ s = u ++ stop :: b := by
  induction s generalizing a with
  | nil => simp [through?] at h
  | cons c s ih =>
    simp only [through?] at h
    split at h
    · rename_i hc
      simp only [Option.some.injEq, Prod.mk.injEq] at h
      obtain ⟨rfl, rfl⟩ := h
      exact ⟨[], by simp [hc], by simp, by simp [hc]⟩
    · rename_i hc
      simp only [Option.map_eq_some_iff, Prod.mk.injEq] at h
      obtain ⟨⟨a', b'⟩, h, rfl, rfl⟩ := h
      obtain ⟨u, rfl, hu, rfl⟩ := ih h
      exact ⟨c :: u, rfl, by simp [Ne.symm hc, hu], rfl⟩

/-- What stands between the `<` and the `>` of a tag or declaration of that kind. -/
structure IsInside (kind : TokenKind) (u : Text) : Prop where
  stop : '>' ∉ u
  comment : ¬ "!--".toList <+: u
  kind : tagKind? (u ++ ['>']) = some kind

/-- What such a token is depends on nothing behind its `>`. -/
theorem tagKind?_stop {u : Text} (h : tagKind? (u ++ ['>']) ≠ none) (r : Text) :
    tagKind? (u ++ '>' :: r) = tagKind? (u ++ ['>']) := by
  cases u with
  | nil => exact absurd rfl h
  | cons c u =>
    have hhead : (u ++ '>' :: r).head? = (u ++ ['>']).head? := by cases u <;> rfl
    rw [List.cons_append, List.cons_append, tagKind?_cons, tagKind?_cons, hhead]

/-- A tag is cut off whatever stands behind it. -/
theorem next?_tag {kind : TokenKind} {u : Text} (h : IsInside kind u) (r : Text) :
    next? ('<' :: (u ++ ['>']) ++ r) = some (⟨kind, '<' :: (u ++ ['>'])⟩, r) := by
  have h1 : after? "!--" (u ++ '>' :: r) = none := by
    rw [Text.after?_eq_none]
    exact fun hp => h.comment (prefix_of_not_mem hp (by decide))
  have h2 : tagKind? (u ++ '>' :: r) = some kind := by rw [tagKind?_stop (by simp [h.kind]), h.kind]
  have h3 : '<' :: (u ++ ['>']) ++ r = '<' :: (u ++ '>' :: r) := by simp
  simp only [h3, next?, if_true, h1, h2, through?_append h.stop, Option.map_some]

theorem isInside_of_through? {kind : TokenKind} {s a b : Text} (hcomment : after? "!--" s = none)
    (hk : tagKind? s = some kind) (h : through? '>' s = some (a, b)) :
    ∃ u, a = u ++ ['>'] ∧ IsInside kind u := by
  obtain ⟨u, rfl, hu, rfl⟩ := through?_eq_some h
  refine ⟨u, rfl, hu, fun hp => Text.after?_eq_none.1 hcomment (hp.trans (List.prefix_append _ _)), ?_⟩
  cases u with
  | nil => simp [tagKind?_cons] at hk
  | cons c u =>
    have hhead : (u ++ ['>']).head? = (u ++ '>' :: b).head? := by cases u <;> rfl
    rw [← hk, List.cons_append, List.cons_append, tagKind?_cons, tagKind?_cons, hhead]

/-! ## One token -/

/-- **What the first token is,** and what it is cut off from. -/
theorem next?_cases {s r : Text} {t : Token} (h : next? s = some (t, r)) :
    (∃ body, t = ⟨.comment, "<!--" ++ (commentBody body).1⟩ ∧ r = (commentBody body).2) ∨
    (∃ kind u, t = ⟨kind, '<' :: (u ++ ['>'])⟩ ∧ IsInside kind u) ∨
    (t = ⟨.strayAngle, ['<']⟩ ∧ after? "!--" r = none ∧ tagKind? r = none) ∨
    (∃ c u, t = ⟨.text, c :: u⟩ ∧ c ≠ '<' ∧ '<' ∉ u ∧ run r = []) := by
  cases s with
  | nil => simp [next?] at h
  | cons c s =>
    simp only [next?] at h
    split at h
    · split at h
      · rename_i body _
        simp only [Option.some.injEq, Prod.mk.injEq] at h
        exact .inl ⟨body, h.1.symm, h.2.symm⟩
      · rename_i hcomment
        split at h
        · rename_i kind hk
          simp only [Option.map_eq_some_iff, Prod.mk.injEq] at h
          obtain ⟨⟨a, b⟩, hp, rfl, rfl⟩ := h
          obtain ⟨u, rfl, hu⟩ := isInside_of_through? hcomment hk hp
          exact .inr (.inl ⟨kind, u, rfl, hu⟩)
        · rename_i hk
          simp only [Option.some.injEq, Prod.mk.injEq] at h
          obtain ⟨rfl, rfl⟩ := h
          exact .inr (.inr (.inl ⟨rfl, hcomment, hk⟩))
    · rename_i hc
      simp only [Option.some.injEq, Prod.mk.injEq] at h
      obtain ⟨rfl, rfl⟩ := h
      have hmem : '<' ∉ s.takeWhile (· != '<') := by
        intro hm
        simpa using List.all_eq_true.1 (List.all_takeWhile (p := (· != '<')) (l := s)) _ hm
      refine .inr (.inr (.inr ⟨c, _, rfl, hc, hmem, ?_⟩))
      rcases hd : s.dropWhile (· != '<') with _ | ⟨d, x⟩
      · rfl
      · have hfirst := List.head?_dropWhile_not (· != '<') s
        rw [hd] at hfirst
        have hd' : d = '<' := by simpa using hfirst
        rw [hd', run_angle]

/-- A comment that something follows is closed. -/
theorem commentBody_closed {s : Text} (h : (commentBody s).2 ≠ []) : ∃ u, (commentBody s).1 = u ++ "-->" := by
  induction s with
  | nil => simp [commentBody] at h
  | cons c s ih =>
    simp only [commentBody] at h ⊢
    split at h
    · exact ⟨[], rfl⟩
    · obtain ⟨u, hu⟩ := ih h
      exact ⟨c :: u, by simp [hu]⟩

theorem commentBody_congr {s r' : Text} (hnil : (commentBody s).2 = [] → r' = []) :
    commentBody ((commentBody s).1 ++ r') = ((commentBody s).1, r') := by
  induction s with
  | nil => simp [commentBody, hnil rfl]
  | cons c s ih =>
    cases ha : after? "-->" (c :: s) with
    | some rest =>
      have hbody : (commentBody (c :: s)).1 = "-->" := by simp only [commentBody, ha]
      have hr : after? "-->" ("-->" ++ r') = some r' := Text.after?_append _ _
      rw [hbody]
      simp only [String.reduceToList, List.cons_append, List.nil_append, commentBody] at hr ⊢
      rw [hr]
    | none =>
      have hbody : commentBody (c :: s) = (c :: (commentBody s).1, (commentBody s).2) := by simp only [commentBody, ha]
      rw [hbody] at hnil ⊢
      have hsame : after? "-->" (c :: ((commentBody s).1 ++ r')) = none := by
        rw [Text.after?_eq_none] at ha ⊢
        by_cases hr : (commentBody s).2 = []
        · have hs := commentBody_append s
          rw [hr, List.append_nil] at hs
          rwa [hnil hr, List.append_nil, hs]
        · -- the ending of the comment is as long as what is looked for, so what follows is out of reach
          obtain ⟨u, hu⟩ := commentBody_closed hr
          have hs := commentBody_append s
          rw [hu] at hs ⊢
          intro hp
          refine ha ?_
          rw [← hs, ← List.cons_append]
          have hlen : "-->".toList.length ≤ (c :: (u ++ "-->".toList)).length := by simp
          exact (List.prefix_of_prefix_length_le hp
            (List.prefix_append (c :: (u ++ "-->".toList)) r') hlen).trans (List.prefix_append _ _)
      simp only [List.cons_append, commentBody, hsame, ih hnil]

/-- **A token stays the same** in front of a text that ends tokens alike. -/
theorem next?_congr {s r r' : Text} {t : Token} (h : next? s = some (t, r)) (he : EndsLike r r') :
    next? (t.text ++ r') = some (t, r') := by
  rcases next?_cases h with
    ⟨body, rfl, rfl⟩ | ⟨kind, u, rfl, hu⟩ | ⟨rfl, hcomment, hk⟩ | ⟨c, u, rfl, hc, hu, hr⟩
  · have ha : after? "!--" ("!--" ++ ((commentBody body).1 ++ r')) = some ((commentBody body).1 ++ r') :=
      Text.after?_append _ _
    have hs : "<!--" ++ (commentBody body).1 ++ r' = '<' :: ("!--" ++ ((commentBody body).1 ++ r')) := by simp
    simp only [hs, next?, if_true, ha, commentBody_congr he.nil]
  · exact next?_tag hu r'
  · simp only [List.singleton_append, next?, if_true, he.comment hcomment, he.kind hk]
  · obtain ⟨h1, h2⟩ := takeWhile_ne_of_not_mem hu r'
    have h3 : r'.takeWhile (· != '<') = [] := he.run hr
    have h4 : r'.dropWhile (· != '<') = r' := by
      rcases run_eq_nil h3 with rfl | ⟨v, rfl⟩
      · rfl
      · simp
    simp only [List.cons_append, next?, hc, if_false, h1, h2, h3, h4, List.append_nil]

/-! ## Lists of tokens -/

theorem exists_next?_of_tokens_eq_cons {s : Text} {t : Token} {ts : List Token} (h : tokens s = t :: ts) :
    ∃ r, next? s = some (t, r) ∧ tokens r = ts := by
  cases hn : next? s with
  | none =>
    rw [tokens_of_next?_none hn] at h
    cases h
  | some p =>
    rw [tokens_of_next? hn, List.cons.injEq] at h
    obtain ⟨t', r⟩ := p
    obtain ⟨rfl, h⟩ := h
    exact ⟨r, rfl, h⟩

/-- Markup without tokens is all tail. -/
theorem tail_of_tokens_nil {s : Text} (h : tokens s = []) : tail s = s := by
  have hs := source_tokens_append_tail s
  rwa [h, Token.source_nil, List.nil_append] at hs

/-- The markup behind the first tokens is cut into the other ones. -/
theorem tokens_of_append {s : Text} {ts us : List Token} (h : tokens s = ts ++ us) :
    tokens (Token.source us ++ tail s) = us ∧ tail (Token.source us ++ tail s) = tail s := by
  induction ts generalizing s with
  | nil =>
    have hs := source_tokens_append_tail s
    rw [h, List.nil_append] at hs
    rw [hs]
    exact ⟨h, rfl⟩
  | cons t ts ih =>
    obtain ⟨r, hn, hr⟩ := exists_next?_of_tokens_eq_cons h
    rw [tail_of_next? hn]
    exact ih hr

/-- **Tokens stay the same** in front of a text that ends tokens alike. -/
theorem tokens_congr {ts : List Token} {r r' : Text} (h : tokens (Token.source ts ++ r) = ts ++ tokens r)
    (he : EndsLike r r') : tokens (Token.source ts ++ r') = ts ++ tokens r' := by
  induction ts with
  | nil => rfl
  | cons t ts ih =>
    rw [Token.source_cons, List.append_assoc] at h ⊢
    obtain ⟨rest, hn, hts⟩ := exists_next?_of_tokens_eq_cons h
    obtain rfl : rest = Token.source ts ++ r := (List.append_cancel_left (next?_eq hn)).symm
    rw [tokens_of_next? (next?_congr hn (he.append _)), ih hts, List.cons_append]

/-- **Markup between two boundaries** is cut on its own as it is cut where it stands. -/
theorem tokens_source_between {s : Text} {ts us vs : List Token} (h : tokens s = ts ++ us ++ vs) :
    tokens (Token.source us) = us := by
  have hus : tokens (Token.source us ++ (Token.source vs ++ tail s)) =
      us ++ tokens (Token.source vs ++ tail s) := by
    rw [(tokens_of_append h).1, ← List.append_assoc, ← Token.source_append]
    rw [List.append_assoc] at h
    exact (tokens_of_append h).1
  have hend : tokens (Token.source us ++ []) = us ++ tokens [] :=
    tokens_congr hus (.ofPrefix List.nil_prefix)
  rwa [tokens_of_next?_none (s := []) rfl, List.append_nil, List.append_nil] at hend

/-- Each of the two parts of a page that is cut between two tokens is cut into its own tokens. -/
theorem tokens_parts {page back : Text} {ts us : List Token} (hcut : tokens page = ts ++ us)
    (hpage : page = Token.source ts ++ back) : tokens (Token.source ts) = ts ∧ tokens back = us := by
  have hwhole : tokens page = [] ++ ts ++ us := hcut
  refine ⟨tokens_source_between hwhole, ?_⟩
  have hsource : Token.source ts ++ (Token.source us ++ tail page) = Token.source ts ++ back := by
    rw [← List.append_assoc, ← Token.source_append, ← hcut, source_tokens_append_tail, ← hpage]
  rw [← List.append_cancel_left hsource]
  exact (tokens_of_append hcut).1

/-- The first tokens are cut off in front of any markup that starts with a `<`, if what they stood in front of does. -/
theorem tokens_source_append {s : Text} {ts us : List Token} {t : Token} (h : tokens s = ts ++ t :: us)
    (ht : t.text.head? = some '<') (r : Text) : tokens (Token.source ts ++ '<' :: r) = ts ++ tokens ('<' :: r) := by
  obtain ⟨u, hu⟩ := List.head?_eq_some_iff.1 ht
  have hs : tokens (Token.source ts ++ (Token.source (t :: us) ++ tail s)) =
      ts ++ tokens (Token.source (t :: us) ++ tail s) := by
    rw [(tokens_of_append h).1, ← List.append_assoc, ← Token.source_append, ← h, source_tokens_append_tail]
  exact tokens_congr hs (.ofRun (by simp [hu]) (by simp [hu]))

/-! ## Tags among tokens -/

theorem exists_next?_of_mem {s : Text} {t : Token} (h : t ∈ tokens s) : ∃ u r, next? u = some (t, r) := by
  induction s using tokens.induct with
  | case1 s hnone =>
    rw [tokens_of_next?_none hnone] at h
    cases h
  | case2 s u rest hnext ih =>
    rw [tokens_of_next? hnext, List.mem_cons] at h
    rcases h with rfl | h
    · exact ⟨s, rest, hnext⟩
    · exact ih h

theorem isInside_of_mem {s : Text} {t : Token} (h : t ∈ tokens s) (hk : t.kind = .openTag ∨ t.kind = .closeTag) :
    ∃ u, t.text = '<' :: (u ++ ['>']) ∧ IsInside t.kind u := by
  obtain ⟨s, r, hn⟩ := exists_next?_of_mem h
  rcases next?_cases hn with ⟨body, rfl, -⟩ | ⟨kind, u, rfl, hu⟩ | ⟨rfl, -⟩ | ⟨c, u, rfl, -⟩
  · simp at hk
  · exact ⟨u, rfl, hu⟩
  · simp at hk
  · simp at hk

theorem whole_of_mem {s : Text} {t : Token} (h : t ∈ tokens s) (hk : t.kind = .openTag ∨ t.kind = .closeTag) :
    t.Whole := by
  obtain ⟨u, ht, hu⟩ := isInside_of_mem h hk
  have hnot : t.kind ≠ .text := by rcases hk with hk | hk <;> simp [hk]
  obtain ⟨kind, text⟩ := t
  simp only at ht hu hnot
  subst ht
  simpa [Token.Whole, hnot] using next?_tag hu

/-- An open tag starts with a letter and ends at its only `>`. -/
theorem isInside_openTag {u : Text} : IsInside .openTag u ↔ u.head?.any Char.isAlpha = true ∧ '>' ∉ u := by
  constructor
  · rintro ⟨hstop, -, hkind⟩
    refine ⟨?_, hstop⟩
    cases u with
    | nil => simp [tagKind?_cons] at hkind
    | cons c u =>
      rw [List.cons_append, tagKind?_cons] at hkind
      split_ifs at hkind <;> simp_all
  · rintro ⟨halpha, hstop⟩
    cases u with
    | nil => simp at halpha
    | cons c u =>
      have hc : c.isAlpha = true := by simpa using halpha
      have h1 : c ≠ '?' := by rintro rfl; exact absurd hc (by decide)
      have h2 : c ≠ '/' := by rintro rfl; exact absurd hc (by decide)
      have h3 : c ≠ '!' := by rintro rfl; exact absurd hc (by decide)
      refine ⟨hstop, ?_, ?_⟩
      · intro hp
        exact h3 (List.cons_prefix_cons.1 hp).1.symm
      · rw [List.cons_append, tagKind?_cons, if_neg h1, if_neg h2, if_neg h3, if_pos hc]

end MarkupLens.Markup
