/-
The grammar of markup: what a token of each kind is, told by the texts alone
(`IsToken`), and what is left where no further token can be cut (`IsTail`). A
page is cut into tokens of the grammar that follow each other without a gap,
up to a tail, in one way only, and that is how `tokens` cuts it (`cuts_iff`).

What stands at the head of a text is settled by the head alone, so no choice
is ever open: the first token is one of the grammar, and a token of the
grammar is the first one wherever it stands at the head (`next?_eq_some_iff`).
-/
import MarkupLens.Proofs.Markup.Boundary

namespace MarkupLens.Markup

open Text (after? byteLength)

/-! ## The grammar -/

/-- A `<` in front of the text starts a tag or a declaration. -/
inductive BeginsTag : Text → Prop where
  | letter {c : Char} {s : Text} (h : c.isAlpha = true) : BeginsTag (c :: s)
  | slash {s : Text} : BeginsTag ('/' :: s)
  | question {s : Text} : BeginsTag ('?' :: s)
  | exclamation {c : Char} {s : Text} (h : c.isAlpha = true) : BeginsTag ('!' :: c :: s)

/-- A `<` in front of the text starts a comment, a tag or a declaration. -/
def Begins (s : Text) : Prop := "!--".toList <+: s ∨ BeginsTag s

/-- The text is a token of that kind in front of what follows it. -/
inductive IsToken : (kind : TokenKind) → (text rest : Text) → Prop where
  /-- through the first `-->` -/
  | comment {u rest : Text} (h : ¬ "-->".toList <:+: u) : IsToken .comment ("<!--" ++ u ++ "-->") rest
  /-- to the end of the page, if there is none -/
  | openComment {u : Text} (h : ¬ "-->".toList <:+: u) : IsToken .comment ("<!--" ++ u) []
  | declaration {c : Char} {u rest : Text} (hc : c.isAlpha = true) (h : '>' ∉ u) :
      IsToken .declaration ("<!" ++ c :: u ++ ">") rest
  | instruction {u rest : Text} (h : '>' ∉ u) : IsToken .declaration ("<?" ++ u ++ ">") rest
  | closeTag {u rest : Text} (h : '>' ∉ u) : IsToken .closeTag ("</" ++ u ++ ">") rest
  | openTag {c : Char} {u rest : Text} (hc : c.isAlpha = true) (h : '>' ∉ u) :
      IsToken .openTag ("<" ++ c :: u ++ ">") rest
  | strayAngle {rest : Text} (h : ¬ Begins rest) : IsToken .strayAngle "<" rest
  /-- a run without `<`, which goes on to the next `<` or to the end -/
  | text {u rest : Text} (hne : u ≠ []) (h : '<' ∉ u) (hrest : ∀ c ∈ rest.head?, c = '<') : IsToken .text u rest

/-- The text ends a page behind the last token: there is nothing, or a tag or declaration without its `>`. -/
inductive IsTail : Text → Prop where
  | nil : IsTail []
  | unclosed {s : Text} (hb : BeginsTag s) (h : '>' ∉ s) : IsTail ('<' :: s)

/-- The text, which starts at byte `first` of a page, is cut into tokens of the grammar, each with the bytes it covers,
that follow each other without a gap up to a tail. -/
inductive Cuts : (first : Nat) → (s : Text) → List (Token × (Nat × Nat)) → (tail : Text) → Prop where
  | tail {first : Nat} {s : Text} (h : IsTail s) : Cuts first s [] s
  | token {first : Nat} {kind : TokenKind} {u r s : Text} {cut : List (Token × (Nat × Nat))} (h : IsToken kind u r)
      (hr : Cuts (first + byteLength u) r cut s) :
      Cuts first (u ++ r) ((⟨kind, u⟩, (first, first + byteLength u)) :: cut) s

/-- The tokens of a page, each with the bytes it covers. -/
def spanned (s : Text) : List (Token × (Nat × Nat)) := (tokens s).zip (Token.spansFrom 0 (tokens s))

/-- The kinds of the tokens of a page. -/
def kinds (s : Text) : List TokenKind :=
  match _h : next? s with
  | none => []
  | some (t, rest) => t.kind :: kinds rest
termination_by s.length
decreasing_by exact next?_shorter _h

/-! ## What a `<` starts -/

theorem tagKind?_isSome {s : Text} : (tagKind? s).isSome = true ↔ BeginsTag s := by
  constructor
  · intro h
    rcases s with _ | ⟨c, s⟩
    · cases h
    · rw [tagKind?_cons] at h
      split_ifs at h with h1 h2 h3 h4 h4
      · exact h1 ▸ .question
      · exact h2 ▸ .slash
      · rcases s with _ | ⟨d, s⟩
        · cases h4
        · exact h3 ▸ .exclamation (by simpa using h4)
      · cases h
      · exact .letter h4
      · cases h
  · rintro (hc | _ | _ | hc)
    · rw [tagKind?_cons]
      split_ifs <;> simp_all
    · rfl
    · rfl
    · simp [tagKind?_cons, hc]

theorem tagKind?_eq_none {s : Text} : tagKind? s = none ↔ ¬ BeginsTag s := by
  rw [← tagKind?_isSome]
  simp

/-- **What stands between `<` and `>`** of a tag or a declaration. -/
theorem isToken_of_isInside {kind : TokenKind} {u : Text} (h : IsInside kind u) (rest : Text) :
    IsToken kind ('<' :: (u ++ ['>'])) rest := by
  obtain ⟨hstop, -, hkind⟩ := h
  rcases u with _ | ⟨c, u⟩
  · simp [tagKind?_cons] at hkind
  · have hu : '>' ∉ u := fun hm => hstop (List.mem_cons_of_mem c hm)
    rw [List.cons_append, tagKind?_cons] at hkind
    split_ifs at hkind with h1 h2 h3 h4 h4
    · cases hkind
      exact h1 ▸ .instruction hu
    · cases hkind
      exact h2 ▸ .closeTag hu
    · cases hkind
      rcases u with _ | ⟨d, u⟩
      · simp at h4
      · exact h3 ▸ .declaration (by simpa using h4) fun hm => hu (List.mem_cons_of_mem d hm)
    · cases hkind
      exact .openTag h4 hu

theorem isInside_openTag_of {c : Char} {u : Text} (hc : c.isAlpha = true) (h : '>' ∉ u) : IsInside .openTag (c :: u) :=
  isInside_openTag.2 ⟨by simpa using hc, by
    rintro (_ | ⟨_, hm⟩)
    · exact absurd hc (by decide)
    · exact h hm⟩

/-! ## Comments -/

/-- A comment ends at its first `-->`, or goes on to the end. -/
theorem commentBody_cases (s : Text) :
    (∃ u, (commentBody s).1 = u ++ "-->" ∧ ¬ "-->".toList <:+: u) ∨ commentBody s = (s, []) ∧ ¬ "-->".toList <:+: s := by
  induction s with
  | nil => exact .inr ⟨rfl, by decide⟩
  | cons c s ih =>
    cases ha : after? "-->" (c :: s) with
    | some rest => exact .inl ⟨[], by simp only [commentBody, ha]; rfl, by decide⟩
    | none =>
      have hbody : commentBody (c :: s) = (c :: (commentBody s).1, (commentBody s).2) := by simp only [commentBody, ha]
      have hstart : ¬ "-->".toList <+: c :: s := Text.after?_eq_none.1 ha
      rcases ih with ⟨u, hu, hno⟩ | ⟨he, hno⟩
      · refine .inl ⟨c :: u, by rw [hbody, hu]; rfl, fun hi => ?_⟩
        rcases List.infix_cons_iff.1 hi with hp | hi
        · refine hstart (hp.trans ?_)
          have hs := commentBody_append s
          rw [hu, List.append_assoc] at hs
          exact ⟨_, congrArg (c :: ·) hs⟩
        · exact hno hi
      · refine .inr ⟨by rw [hbody, he], fun hi => ?_⟩
        rcases List.infix_cons_iff.1 hi with hp | hi
        · exact hstart hp
        · exact hno hi

theorem commentBody_open {s : Text} (h : ¬ "-->".toList <:+: s) : commentBody s = (s, []) := by
  rcases commentBody_cases s with ⟨u, hu, -⟩ | ⟨he, -⟩
  · refine absurd ?_ h
    rw [← commentBody_append s, hu]
    exact ⟨u, (commentBody s).2, rfl⟩
  · exact he

theorem next?_comment (s : Text) :
    next? ("<!--" ++ s) = some (⟨.comment, "<!--" ++ (commentBody s).1⟩, (commentBody s).2) := by
  have ha : after? "!--" ("!--" ++ s) = some s := Text.after?_append _ _
  have hs : "<!--" ++ s = '<' :: ("!--" ++ s) := rfl
  simp only [hs, next?, if_true, ha]

/-! ## The first token -/

theorem isToken_of_next? {s r : Text} {t : Token} (h : next? s = some (t, r)) : IsToken t.kind t.text r := by
  rcases next?_cases h with
    ⟨body, rfl, rfl⟩ | ⟨kind, u, rfl, hu⟩ | ⟨rfl, hcomment, hk⟩ | ⟨c, u, rfl, hc, hu, hr⟩
  · rcases commentBody_cases body with ⟨u, hu, hno⟩ | ⟨he, hno⟩
    · dsimp only
      rw [hu, ← List.append_assoc]
      exact .comment hno
    · rw [he]
      exact .openComment hno
  · exact isToken_of_isInside hu r
  · refine .strayAngle ?_
    rintro (hp | hb)
    · exact Text.after?_eq_none.1 hcomment hp
    · exact tagKind?_eq_none.1 hk hb
  · exact .text (List.cons_ne_nil c u) (by simp [Ne.symm hc, hu]) (run_eq_nil_iff.1 hr)

theorem next?_of_isToken {kind : TokenKind} {u r : Text} (h : IsToken kind u r) :
    next? (u ++ r) = some (⟨kind, u⟩, r) := by
  cases h with
  | comment h =>
    rename_i u
    have hbody := commentBody_append_ending (s := u) (by simpa [← Text.holds_iff] using h) r
    rw [List.append_assoc, List.append_assoc, next?_comment, hbody, List.append_assoc]
  | openComment h => rw [List.append_nil, next?_comment, commentBody_open h]
  | declaration hc h =>
    rename_i c u
    have hu : IsInside .declaration ('!' :: c :: u) := by
      refine ⟨?_, ?_, by simp [tagKind?_cons, hc]⟩
      · rintro (_ | ⟨_, _ | ⟨_, hm⟩⟩)
        · exact absurd hc (by decide)
        · exact h hm
      · intro hp
        have hdash := (List.cons_prefix_cons.1 (List.cons_prefix_cons.1 hp).2).1
        subst hdash
        exact absurd hc (by decide)
    exact next?_tag hu r
  | instruction h =>
    rename_i u
    have hu : IsInside .declaration ('?' :: u) := ⟨by simpa using h, fun hp => by simp at hp, rfl⟩
    exact next?_tag hu r
  | closeTag h =>
    rename_i u
    have hu : IsInside .closeTag ('/' :: u) := ⟨by simpa using h, fun hp => by simp at hp, rfl⟩
    exact next?_tag hu r
  | openTag hc h => exact next?_tag (isInside_openTag_of hc h) r
  | strayAngle h =>
    have h1 : after? "!--" r = none := Text.after?_eq_none.2 fun hp => h (.inl hp)
    have h2 : tagKind? r = none := tagKind?_eq_none.2 fun hb => h (.inr hb)
    show next? ('<' :: r) = _
    simp only [next?, if_true, h1, h2]
    rfl
  | text hne h hrest =>
    rcases u with _ | ⟨c, u⟩
    · exact absurd rfl hne
    · have hc : c ≠ '<' := fun he => h (by simp [he])
      have hu : '<' ∉ u := fun hm => h (List.mem_cons_of_mem c hm)
      obtain ⟨h1, h2⟩ := takeWhile_ne_of_not_mem hu r
      have h3 : r.takeWhile (· != '<') = [] ∧ r.dropWhile (· != '<') = r := by
        rcases r with _ | ⟨d, r⟩
        · exact ⟨rfl, rfl⟩
        · simp [hrest d rfl]
      simp only [List.cons_append, next?, hc, if_false, h1, h2, h3, List.append_nil]

/-- **The first token** is the one of the grammar that stands at the head. -/
theorem next?_eq_some_iff {s r : Text} {t : Token} :
    next? s = some (t, r) ↔ s = t.text ++ r ∧ IsToken t.kind t.text r := by
  constructor
  · exact fun h => ⟨next?_eq h, isToken_of_next? h⟩
  · rintro ⟨rfl, h⟩
    exact next?_of_isToken h

/-- Up to a `<` at the latest, a change behind the first token is seen from in front of it only if that token is text,
which a `<` or the end follows. -/
theorem takeWhile_of_next? {p : Char → Bool} (hp : p '<' = false) {s r r' : Text} {t : Token}
    (h : next? s = some (t, r)) (hr : r'.takeWhile p = r.takeWhile p ∨ r'.takeWhile p = []) :
    (t.text ++ r').takeWhile p = s.takeWhile p ∨ (t.text ++ r').takeWhile p = [] := by
  have hangle : ∀ u : Text, ('<' :: u).takeWhile p = [] := fun u => List.takeWhile_cons_of_neg (by simp [hp])
  obtain ⟨rfl, htoken⟩ := next?_eq_some_iff.1 h
  obtain ⟨kind, text⟩ := t
  cases htoken with
  | text hne hno hrest =>
    have hnil : r.takeWhile p = [] := by
      rcases run_eq_nil (run_eq_nil_iff.2 hrest) with rfl | ⟨v, rfl⟩
      · rfl
      · exact hangle v
    have hback : r'.takeWhile p = r.takeWhile p := hr.elim id (·.trans hnil.symm)
    exact .inl (by rw [List.takeWhile_append, List.takeWhile_append, hback])
  | _ => exact .inr (hangle _)

theorem through?_eq_none {stop : Char} {s : Text} : through? stop s = none ↔ stop ∉ s := by
  induction s with
  | nil => simp [through?]
  | cons c s ih =>
    by_cases hc : c = stop
    · simp [through?, hc]
    · simp [through?, hc, ih, Ne.symm hc]

/-- **There is no first token** where the page ends. -/
theorem next?_eq_none_iff {s : Text} : next? s = none ↔ IsTail s := by
  constructor
  · intro h
    rcases s with _ | ⟨c, s⟩
    · exact .nil
    · simp only [next?] at h
      split at h
      · rename_i hc
        subst hc
        split at h
        · cases h
        · split at h
          · rename_i kind hk
            rw [Option.map_eq_none_iff, through?_eq_none] at h
            exact .unclosed (tagKind?_isSome.1 (by rw [hk]; rfl)) h
          · cases h
      · cases h
  · rintro (_ | ⟨hb, h⟩)
    · rfl
    · rename_i s
      obtain ⟨kind, hk⟩ := Option.isSome_iff_exists.1 (tagKind?_isSome.2 hb)
      have hcomment : after? "!--" s = none := by
        rw [Text.after?_eq_none]
        rintro ⟨v, rfl⟩
        simp [tagKind?_cons] at hk
      simp only [next?, if_true, hcomment, hk, through?_eq_none.2 h, Option.map_none]

/-- What is left behind the last token ends a page. -/
theorem isTail_tail (page : Text) : IsTail (tail page) := by
  induction page using tail.induct with
  | case1 s hnone =>
    rw [tail_of_next?_none hnone]
    exact next?_eq_none_iff.1 hnone
  | case2 s t rest hnext ih => rwa [tail_of_next? hnext]

/-! ## What follows a token -/

theorem begins_run {s : Text} : Begins (run s) ↔ Begins s := by
  rw [Begins, Begins, prefix_run (by decide), ← tagKind?_isSome, tagKind?_run, tagKind?_isSome]

theorem not_begins_of_run {s : Text} (h : run s = []) : ¬ Begins s := by
  rw [← begins_run, h]
  rintro (hp | hb)
  · exact absurd hp (by decide)
  · cases hb

/-- A token stays one where no `<` that starts nothing comes to start something, unless it is a run of text, which goes
on, or a comment that was not closed. -/
theorem IsToken.of_begins {kind : TokenKind} {u r r' : Text} (h : IsToken kind u r) (hb : Begins r' → Begins r) :
    IsToken kind u r' ∨ (kind = .text ∧ '<' ∉ u) ∨
      (kind = .comment ∧ r = [] ∧ ∃ v, u = "<!--" ++ v ∧ ¬ "-->".toList <:+: v) := by
  cases h with
  | comment h => exact .inl (.comment h)
  | openComment h => exact .inr (.inr ⟨rfl, rfl, _, rfl, h⟩)
  | declaration hc h => exact .inl (.declaration hc h)
  | instruction h => exact .inl (.instruction h)
  | closeTag h => exact .inl (.closeTag h)
  | openTag hc h => exact .inl (.openTag hc h)
  | strayAngle h => exact .inl (.strayAngle fun hbegins => h (hb hbegins))
  | text hne h hrest => exact .inr (.inl ⟨rfl, h⟩)

/-- A token stays one where a `<` comes to stand behind it, or the same run as before, unless it is a comment that was
not closed. -/
theorem IsToken.of_run {kind : TokenKind} {u r r' : Text} (h : IsToken kind u r) (hr : run r' = run r ∨ run r' = []) :
    IsToken kind u r' ∨ kind = .comment ∧ r = [] ∧ ∃ v, u = "<!--" ++ v ∧ ¬ "-->".toList <:+: v := by
  have hb : Begins r' → Begins r := by
    intro hbegins
    rcases hr with hr | hr
    · rwa [← begins_run, ← hr, begins_run]
    · exact absurd hbegins (not_begins_of_run hr)
  rcases h.of_begins hb with hkeep | ⟨rfl, -⟩ | hopen
  · exact .inl hkeep
  · cases h with
    | text hne h hrest =>
      have hnil : run r' = [] := hr.elim (·.trans (run_eq_nil_iff.2 hrest)) id
      exact .inl (.text hne h (run_eq_nil_iff.1 hnil))
  · exact .inr hopen

/-! ## The whole page -/

theorem cuts_tokens (s : Text) (first : Nat) :
    Cuts first s ((tokens s).zip (Token.spansFrom first (tokens s))) (tail s) := by
  induction s using tokens.induct generalizing first with
  | case1 s hnone =>
    rw [tokens_of_next?_none hnone, tail_of_next?_none hnone]
    exact .tail (next?_eq_none_iff.1 hnone)
  | case2 s t rest hnext ih =>
    obtain ⟨hs, ht⟩ := next?_eq_some_iff.1 hnext
    rw [tokens_of_next? hnext, tail_of_next? hnext, hs]
    exact .token ht (ih _)

/-- **There is one way to cut a page.** -/
theorem cuts_iff {first : Nat} {s s' : Text} {cut : List (Token × (Nat × Nat))} :
    Cuts first s cut s' ↔ cut = (tokens s).zip (Token.spansFrom first (tokens s)) ∧ s' = tail s := by
  constructor
  · intro h
    induction h with
    | tail h =>
      have hnone := next?_eq_none_iff.2 h
      rw [tokens_of_next?_none hnone, tail_of_next?_none hnone]
      exact ⟨rfl, rfl⟩
    | token h _ ih =>
      have hnext := next?_of_isToken h
      rw [tokens_of_next? hnext, tail_of_next? hnext, ih.1]
      exact ⟨rfl, ih.2⟩
  · rintro ⟨rfl, rfl⟩
    exact cuts_tokens s first

/-! ## Bytes -/

@[simp] theorem length_spansFrom (first : Nat) (ts : List Token) : (Token.spansFrom first ts).length = ts.length := by
  induction ts generalizing first with
  | nil => rfl
  | cons t ts ih => rw [Token.spansFrom, List.length_cons, ih, List.length_cons]

theorem map_fst_spanned (page : Text) : (spanned page).map (·.1) = tokens page :=
  List.map_fst_zip (by simp)

/-- A token covers the bytes from where the tokens in front of it end. -/
theorem span_of_zip {first : Nat} {ts : List Token} {before after : List (Token × (Nat × Nat))} {t : Token}
    {span : Nat × Nat} (h : ts.zip (Token.spansFrom first ts) = before ++ (t, span) :: after) :
    span.1 = first + byteLength (Token.source (before.map (·.1))) ∧ span.2 = span.1 + byteLength t.text := by
  induction ts generalizing first before with
  | nil => simp at h
  | cons u ts ih =>
    rw [Token.spansFrom, List.zip_cons_cons] at h
    rcases before with _ | ⟨p, before⟩
    · obtain ⟨he, -⟩ := List.cons.inj h
      cases he
      exact ⟨rfl, rfl⟩
    · obtain ⟨rfl, hrest⟩ := List.cons.inj h
      obtain ⟨h1, h2⟩ := ih hrest
      refine ⟨?_, h2⟩
      rw [h1, List.map_cons, Token.source_cons, Text.byteLength_append, Nat.add_assoc]

theorem text_ne_nil_of_mem {page : Text} {t : Token} (h : t ∈ tokens page) : t.text ≠ [] := by
  obtain ⟨s, r, hn⟩ := exists_next?_of_mem h
  exact next?_text_ne_nil hn

theorem kinds_eq (page : Text) : kinds page = (tokens page).map (·.kind) := by
  induction page using tokens.induct with
  | case1 s hnone => rw [kinds, tokens_of_next?_none hnone]; split <;> simp_all
  | case2 s t rest hnext ih => rw [kinds, tokens_of_next? hnext]; split <;> simp_all

/-- **The cutting of a page** is the one that the grammar allows, from byte 0 without a gap up to a tail; the texts of
the tokens are the page without its tail, each token covers at least one byte, from where those in front of it end, and
the kinds taken alone are those of the tokens. -/
theorem tokens_grammar (page : Text) :
    (∀ cut rest, Cuts 0 page cut rest ↔ cut = spanned page ∧ rest = tail page) ∧
      Token.source ((spanned page).map (·.1)) ++ tail page = page ∧ IsTail (tail page) ∧
      (∀ before t span after, spanned page = before ++ (t, span) :: after →
        span.1 = byteLength (Token.source (before.map (·.1))) ∧
          span.2 = byteLength (Token.source (before.map (·.1)) ++ t.text) ∧ span.1 < span.2) ∧
      kinds page = (spanned page).map (·.1.kind) := by
  refine ⟨fun cut rest => cuts_iff, ?_, isTail_tail page, fun before t span after h => ?_, ?_⟩
  · rw [map_fst_spanned, source_tokens_append_tail]
  · obtain ⟨h1, h2⟩ := span_of_zip h
    have hmem : t ∈ tokens page := by
      rw [← map_fst_spanned, h]
      simp
    have hpos := Text.byteLength_pos (text_ne_nil_of_mem hmem)
    rw [Nat.zero_add] at h1
    refine ⟨h1, ?_, by omega⟩
    rw [h2, h1, Text.byteLength_append]
  · rw [kinds_eq, ← map_fst_spanned, List.map_map]
    rfl

/-- A page with tokens of every kind, and a tail. -/
def everyKind : Text := "<!D><p>é < <!-- > --></p><a b"

theorem tokens_grammar_everyKind :
    spanned everyKind = [(⟨.declaration, "<!D>"⟩, (0, 4)), (⟨.openTag, "<p>"⟩, (4, 7)), (⟨.text, "é "⟩, (7, 10)),
        (⟨.strayAngle, "<"⟩, (10, 11)), (⟨.text, " "⟩, (11, 12)), (⟨.comment, "<!-- > -->"⟩, (12, 22)),
        (⟨.closeTag, "</p>"⟩, (22, 26))] ∧
      tail everyKind = "<a b".toList ∧ Cuts 0 everyKind (spanned everyKind) (tail everyKind) :=
  ⟨by decide +kernel, by decide +kernel, ((tokens_grammar everyKind).1 _ _).2 ⟨rfl, rfl⟩⟩

end MarkupLens.Markup
