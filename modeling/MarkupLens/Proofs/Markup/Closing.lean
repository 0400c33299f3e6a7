/-
What closes an element. The builder of the tree pops the innermost open
element at every close tag, whatever its name, and at the end of a page all
that is still open; a close tag where nothing is open is passed over. So the
names of close tags do not matter, and close tags put behind a page do no more
than its end does (`parse_closeTags`).

That the tokens in front of the changed ones stay the same is a matter of
where they end: a close tag starts with a `<`, as the one that it replaces did,
and as the end of a page does for all but a comment that is not closed.
-/
import MarkupLens.Proofs.Markup.ForestTree
import MarkupLens.Proofs.Markup.Grammar
import MarkupLens.Proofs.Markup.Pairing
import Mathlib.Data.List.Forall2
import Mathlib.Logic.Function.Iterate

namespace MarkupLens

/-- A comment that is not closed, which goes on to the end of the page. -/
def Token.isOpenComment (t : Token) : Bool :=
  t.kind == .comment && !Text.holds "-->" (Text.dropStart "<!--" t.text)

@[simp] theorem Token.isOpenComment_comment (v : Text) :
    Token.isOpenComment ⟨.comment, "<!--" ++ v⟩ = !Text.holds "-->" v := by
  rw [isOpenComment, Text.dropStart_append]
  rfl

namespace Markup

/-! ## The end of a page -/

namespace Builder

theorem finish_close {b : Builder} (h : b.pending = []) : b.close.finish = b.finish := by
  obtain ⟨done, opened, pending⟩ := b
  obtain rfl : pending = [] := h
  rcases opened with _ | ⟨e, _ | ⟨e', outer⟩⟩ <;> rfl

theorem finish_flush (b : Builder) : b.flush.finish = b.finish := by
  have hidle : b.flush.flush = b.flush := by
    have hp := flush_pending b
    generalize b.flush = b at hp
    obtain ⟨done, opened, pending⟩ := b
    obtain rfl : pending = [] := hp
    rfl
  rw [finish, finish, hidle]

theorem length_opened_close (b : Builder) : b.close.opened.length = b.opened.length - 1 := by
  rw [← length_names, names_close, List.length_tail, length_names]

/-- **The end of a page** is as good as close tags for all that is open, and more of them do no harm. -/
theorem iterate_close_flush {b : Builder} {n : Nat} (hn : b.opened.length ≤ n) :
    close^[n] b.flush = ⟨b.finish, [], []⟩ := by
  have hclosed : ∀ (n : Nat) (b : Builder), b.opened.length ≤ n → b.pending = [] →
      close^[n] b = ⟨b.finish, [], []⟩ := by
    intro n
    induction n with
    | zero =>
      rintro ⟨done, opened, pending⟩ hn rfl
      obtain rfl : opened = [] := List.length_eq_zero_iff.1 (Nat.le_zero.1 hn)
      rfl
    | succ n ih =>
      intro b hn hp
      have hlen : b.close.opened.length ≤ n := by rw [length_opened_close]; omega
      rw [Function.iterate_succ_apply, ih b.close hlen ((close_pending b).trans hp), finish_close hp]
  rw [hclosed n b.flush ?_ (flush_pending b), finish_flush]
  rwa [← length_names, names_flush, length_names]

/-- **At the end** of two pages the trees are in any relation that they were in before the end, once the pending text is
a node, and that closing an element on both sides keeps. -/
theorem finish_of_close {R : Builder → Builder → Prop} (hclose : ∀ {b b'}, R b b' → R b.close b'.close)
    {b b' : Builder} (h : R b.flush b'.flush) : R ⟨b.finish, [], []⟩ ⟨b'.finish, [], []⟩ := by
  have hclosed : ∀ n, R (close^[n] b.flush) (close^[n] b'.flush) := by
    intro n
    induction n with
    | zero => exact h
    | succ n ih =>
      rw [Function.iterate_succ_apply', Function.iterate_succ_apply']
      exact hclose ih
  have hend := hclosed (b.opened.length + b'.opened.length)
  rwa [iterate_close_flush (Nat.le_add_right _ _), iterate_close_flush (Nat.le_add_left _ _)] at hend

end Builder

/-! ## Close tags behind a page -/

/-- The tokens are close tags, of any names. -/
def Stray (us : List Token) : Prop := ∀ t ∈ us, ∃ u : Text, '>' ∉ u ∧ t = ⟨.closeTag, "</" ++ u ++ ">"⟩

theorem tokens_stray {us : List Token} (h : Stray us) : tokens (Token.source us) = us := by
  induction us with
  | nil => exact tokens_of_next?_none rfl
  | cons t us ih =>
    obtain ⟨⟨u, hu, rfl⟩, hus⟩ := List.forall_mem_cons.1 h
    rw [Token.source_cons, tokens_of_next? (next?_of_isToken (.closeTag hu)), ih hus]

theorem run_stray {us : List Token} (h : Stray us) : run (Token.source us) = [] := by
  cases us with
  | nil => rfl
  | cons t us =>
    obtain ⟨⟨u, -, rfl⟩, -⟩ := List.forall_mem_cons.1 h
    exact run_angle _

/-- **Markup behind a page** that ends with a token, and with no comment left open, is cut on its own if it goes on with
a `<`. -/
theorem tokens_append {s r : Text} (htail : tail s = []) (hlast : ∀ t ∈ (tokens s).getLast?, t.isOpenComment = false)
    (hr : run r = []) : tokens (s ++ r) = tokens s ++ tokens r := by
  induction s using tokens.induct with
  | case1 s hnone =>
    obtain rfl : s = [] := by rw [← htail, tail_of_next?_none hnone]
    rw [tokens_of_next?_none hnone]
    rfl
  | case2 s t rest hnext ih =>
    obtain ⟨rfl, htoken⟩ := next?_eq_some_iff.1 hnext
    rw [tail_of_next? hnext] at htail
    rw [tokens_of_next? hnext] at hlast ⊢
    have hrun : run (rest ++ r) = run (rest ++ []) := run_congr (hr.trans run_nil.symm) rest
    rw [List.append_nil] at hrun
    have hkeep : IsToken t.kind t.text (rest ++ r) := by
      rcases htoken.of_run (.inl hrun) with hkeep | ⟨hkind, rfl, v, hv, hno⟩
      · exact hkeep
      · -- a comment left open is the last token
        obtain ⟨kind, text⟩ := t
        obtain rfl : kind = .comment := hkind
        obtain rfl : text = "<!--" ++ v := hv
        have hclosed : Token.isOpenComment ⟨.comment, "<!--" ++ v⟩ = false :=
          hlast _ (by rw [tokens_of_next?_none rfl]; rfl)
        rw [Token.isOpenComment_comment, Bool.not_eq_false', Text.holds_iff] at hclosed
        exact absurd hclosed hno
    rw [List.append_assoc, tokens_of_next? (next?_of_isToken hkeep), List.cons_append]
    refine congrArg (t :: ·) (ih htail fun u hu => hlast u ?_)
    rw [List.getLast?_cons, Option.mem_def.1 hu]
    rfl

theorem Builder.finish_foldl_stray {us : List Token} (h : Stray us) (b : Builder) :
    (us.foldl step b).finish = b.finish := by
  induction us generalizing b with
  | nil => rfl
  | cons t us ih =>
    obtain ⟨⟨u, -, rfl⟩, hus⟩ := List.forall_mem_cons.1 h
    calc (us.foldl step b.flush.close).finish
        = b.flush.close.finish := ih hus _
      _ = b.flush.finish := finish_close (flush_pending b)
      _ = b.finish := finish_flush b

/-! ## Names of close tags -/

/-- The second token is the first one, or both are close tags, whatever their names. -/
inductive Renamed : Token → Token → Prop where
  | same (t : Token) : Renamed t t
  | closeTag (s : Text) {u : Text} (hu : '>' ∉ u) : Renamed ⟨.closeTag, s⟩ ⟨.closeTag, "</" ++ u ++ ">"⟩

/-- A close tag of another name ends the token in front of it where the old one did. -/
theorem tokens_renamed {ts us : List Token} (h : List.Forall₂ Renamed ts us) {s : Text} (hs : tokens s = ts) :
    EndsLike s (Token.source us ++ tail s) ∧ tokens (Token.source us ++ tail s) = us := by
  induction h generalizing s with
  | nil =>
    rw [Token.source_nil, List.nil_append, tail_of_tokens_nil hs]
    exact ⟨.ofPrefix (List.prefix_refl s), hs⟩
  | @cons t u ts us hrenamed _ ih =>
    obtain ⟨r, hnext, hr⟩ := exists_next?_of_tokens_eq_cons hs
    obtain ⟨hends, htokens⟩ := ih hr
    rw [tail_of_next? hnext, Token.source_cons, List.append_assoc]
    cases hrenamed with
    | same =>
      rw [tokens_of_next? (next?_congr hnext hends), htokens, next?_eq hnext]
      exact ⟨hends.append _, rfl⟩
    | closeTag text hu =>
      rw [tokens_of_next? (next?_of_isToken (.closeTag hu)), htokens]
      obtain ⟨v, hv, -⟩ := isInside_of_mem (s := s) (by rw [hs]; exact List.mem_cons_self) (.inr rfl)
      obtain rfl : text = '<' :: (v ++ ['>']) := hv
      rw [next?_eq hnext]
      exact ⟨.ofRun rfl fun he => absurd he (List.cons_ne_nil _ _), rfl⟩

theorem Builder.foldl_renamed {ts us : List Token} (h : List.Forall₂ Renamed ts us) (b : Builder) :
    us.foldl step b = ts.foldl step b := by
  induction h generalizing b with
  | nil => rfl
  | cons hrenamed _ ih =>
    cases hrenamed with
    | same => exact ih _
    | closeTag text hu => exact ih b.flush.close

/-- **Close tags act by their places only.** The names of the close tags of a page can be changed, each on its own, and
the tree stays the same; and so it does where close tags of any names are put behind a page that ends with a token, and
with no comment left open, whether they close what is still open there or come after all is closed. -/
theorem parse_closeTags (page : Text) :
    (∀ us, List.Forall₂ Renamed (tokens page) us → parse (Token.source us ++ tail page) = parse page) ∧
      (tail page = [] → (∀ t ∈ (tokens page).getLast?, t.isOpenComment = false) →
        ∀ us, Stray us → parse (page ++ Token.source us) = parse page) := by
  refine ⟨fun us h => ?_, fun htail hlast us h => ?_⟩
  · rw [parse, parse, (tokens_renamed h rfl).2, treeOf, treeOf, Builder.foldl_renamed h]
  · rw [parse, parse, tokens_append htail hlast (run_stray h), tokens_stray h, treeOf, treeOf, List.foldl_append,
      Builder.finish_foldl_stray h]

/-- A page with a close tag of another name, a surplus one, and two elements that are still open. -/
def looselyClosed : Text := "a<ul><li>b</ul></ul></p><p> <b>c<br><!-- d -->"

/-- The tokens of the page with other names for its three close tags. -/
def renamedTokens : List Token :=
  [⟨.text, "a"⟩, ⟨.openTag, "<ul>"⟩, ⟨.openTag, "<li>"⟩, ⟨.text, "b"⟩, ⟨.closeTag, "</" ++ "li" ++ ">"⟩,
    ⟨.closeTag, "</" ++ "" ++ ">"⟩, ⟨.closeTag, "</" ++ "a <b" ++ ">"⟩, ⟨.openTag, "<p>"⟩, ⟨.text, " "⟩,
    ⟨.openTag, "<b>"⟩, ⟨.text, "c"⟩, ⟨.openTag, "<br>"⟩, ⟨.comment, "<!-- d -->"⟩]

/-- Close tags for what is still open on the page, and one more. -/
def closingTokens : List Token :=
  [⟨.closeTag, "</" ++ "i" ++ ">"⟩, ⟨.closeTag, "</" ++ "p" ++ ">"⟩, ⟨.closeTag, "</" ++ "ul" ++ ">"⟩]

theorem parse_closeTags_looselyClosed :
    (List.Forall₂ Renamed (tokens looselyClosed) renamedTokens ∧
        parse (Token.source renamedTokens ++ tail looselyClosed) = parse looselyClosed) ∧
      tail looselyClosed = [] ∧ (∀ t ∈ (tokens looselyClosed).getLast?, t.isOpenComment = false) ∧
      Stray closingTokens ∧ parse (looselyClosed ++ Token.source closingTokens) = parse looselyClosed := by
  have htokens : tokens looselyClosed =
      [⟨.text, "a"⟩, ⟨.openTag, "<ul>"⟩, ⟨.openTag, "<li>"⟩, ⟨.text, "b"⟩, ⟨.closeTag, "</ul>"⟩, ⟨.closeTag, "</ul>"⟩,
        ⟨.closeTag, "</p>"⟩, ⟨.openTag, "<p>"⟩, ⟨.text, " "⟩, ⟨.openTag, "<b>"⟩, ⟨.text, "c"⟩, ⟨.openTag, "<br>"⟩,
        ⟨.comment, "<!-- d -->"⟩] := by
    decide +kernel
  have htail : tail looselyClosed = [] := by decide +kernel
  have hlast : ∀ t ∈ (tokens looselyClosed).getLast?, t.isOpenComment = false := by
    rw [htokens]
    decide +kernel
  have hrenamed : List.Forall₂ Renamed (tokens looselyClosed) renamedTokens := by
    rw [htokens]
    iterate 4 refine .cons (.same _) ?_
    iterate 3 refine .cons (.closeTag _ (by decide)) ?_
    iterate 6 refine .cons (.same _) ?_
    exact .nil
  have hstray : Stray closingTokens := by
    simp only [Stray, closingTokens, List.forall_mem_cons]
    exact ⟨⟨_, by decide, rfl⟩, ⟨_, by decide, rfl⟩, ⟨_, by decide, rfl⟩, by simp⟩
  have h := parse_closeTags looselyClosed
  exact ⟨⟨hrenamed, h.1 _ hrenamed⟩, htail, hlast, hstray, h.2 htail hlast _ hstray⟩

end Markup

end MarkupLens
