/-
Parts of a page that stand side by side. The walk leaves the order of the
tokens only to jump over a body, and it finds the end of a body by looking
ahead until the element is closed. Where every tag that sends it looking is
closed in front of a boundary, nothing behind the boundary is seen from the
front (`renderTokens_append`), and a page is rendered as its two parts are,
one after the other (`renderWith_siblings`). The parts may be broken in any
other way: text cut off, close tags of nothing, elements never closed.
-/
import MarkupLens.Proofs.Markup.Boundary
import MarkupLens.Proofs.Markup.Pairing
import MarkupLens.Proofs.Render.Plans

namespace MarkupLens

open Markup (splitAtClose splitAtClose_eq matchingClose? matchingClose?_append_cons closes opens tokens)

/-! ## The search for a close tag -/

/-- The same body, with more behind it. -/
def Enclosed.followedBy (us : List Token) (e : Enclosed) : Enclosed := { e with after := e.after ++ us }

namespace Markup

variable {name : Text} {depth : Nat} {ts us : List Token} {e : Enclosed}

/-- A search that ends does not look further. -/
theorem splitAtClose_append (h : splitAtClose name depth ts = some e) (us : List Token) :
    splitAtClose name depth (ts ++ us) = some (e.followedBy us) := by
  induction ts generalizing depth e with
  | nil => simp [splitAtClose] at h
  | cons t ts ih =>
    simp only [List.cons_append, splitAtClose] at h ⊢
    split at h
    · rename_i hcloses
      rw [if_pos hcloses]
      cases depth with
      | zero =>
        simp only [Option.some.injEq] at h
        subst h
        rfl
      | succ depth =>
        simp only [Option.map_eq_some_iff] at h
        obtain ⟨e, h, rfl⟩ := h
        simp only [ih h]
        rfl
    · rename_i hcloses
      rw [if_neg hcloses]
      simp only [Option.map_eq_some_iff] at h
      obtain ⟨e, h, rfl⟩ := h
      simp only [ih h]
      rfl

/-- A search that finds a close tag among the first tokens ends in them. -/
theorem exists_splitAtClose_of_lt (h : splitAtClose name depth (ts ++ us) = some e)
    (hlt : e.inner.length < ts.length) : ∃ e, splitAtClose name depth ts = some e := by
  induction ts generalizing depth e with
  | nil => simp at hlt
  | cons t ts ih =>
    simp only [List.cons_append, splitAtClose] at h ⊢
    split at h
    · rename_i hcloses
      rw [if_pos hcloses]
      cases depth with
      | zero => exact ⟨_, rfl⟩
      | succ depth =>
        simp only [Option.map_eq_some_iff] at h ⊢
        obtain ⟨e, h, rfl⟩ := h
        obtain ⟨e, he⟩ := ih h (by simpa using hlt)
        exact ⟨_, e, he, rfl⟩
    · rename_i hcloses
      rw [if_neg hcloses]
      simp only [Option.map_eq_some_iff] at h ⊢
      obtain ⟨e, h, rfl⟩ := h
      obtain ⟨e, he⟩ := ih h (by simpa using hlt)
      exact ⟨_, e, he, rfl⟩

end Markup

/-! ## The walk over the front -/

namespace Render

variable {table : DirectiveTable} {ts us : List Token}

/-- Among these tokens, every tag that has directives and a body is closed. -/
def ClosedAmong (table : DirectiveTable) (ts : List Token) : Prop :=
  ∀ before t rest, ts = before ++ t :: rest → t.directives table ≠ [] → (OpenTag.scan t.text).hasBody = true →
    ∃ e, splitAtClose (OpenTag.scan t.text).name 0 rest = some e

theorem ClosedAmong.behind (front : List Token) (h : ClosedAmong table (front ++ ts)) : ClosedAmong table ts := by
  intro before t rest hts
  exact h (front ++ before) t rest (by rw [hts, List.append_assoc])

/-- What is behind the boundary comes to stand behind the body, if the plan looks for one. -/
theorem plan_append {t : Token} (h : ClosedAmong table (t :: ts)) (us : List Token) :
    plan table t (ts ++ us) = (plan table t ts).mapBody (Enclosed.followedBy us) := by
  by_cases hd : t.directives table = []
  · rw [plan_of_no_directives hd, plan_of_no_directives hd, Plan.mapBody]
  · refine plan_mapBody fun hbody => ?_
    obtain ⟨e, he⟩ := h [] t ts rfl hd hbody
    rw [he, Markup.splitAtClose_append he us, Option.map_some]

/-- **The walk over the front of a list** does not see what stands behind it. -/
theorem renderTokens_append (h : ClosedAmong table ts) (us : List Token) (c : Context) :
    renderTokens table c (ts ++ us) = renderTokens table c ts ++ renderTokens table c us := by
  -- on the length of the front, since the walk goes on behind a body and not behind its open tag
  induction hn : ts.length using Nat.strongRecOn generalizing ts with
  | _ n ih =>
    cases ts with
    | nil => rw [List.nil_append, renderTokens_nil, List.nil_append]
    | cons t rest =>
      have hlen : rest.length < n := by simp only [List.length_cons] at hn; omega
      have hrest : ClosedAmong table rest := h.behind [t]
      have hafter : ∀ body : Enclosed, rest = body.inner ++ body.close :: body.after →
          renderTokens table c (body.after ++ us) = renderTokens table c body.after ++ renderTokens table c us := by
        intro body hbody
        have hsplit : rest = (body.inner ++ [body.close]) ++ body.after := by simpa using hbody
        have hlt : body.after.length < n := by
          have := congrArg List.length hbody
          simp only [List.length_append, List.length_cons] at this
          omega
        rw [hsplit] at hrest
        exact ih _ hlt (hrest.behind _) rfl
      have hplan : plan table t (rest ++ us) = (plan table t rest).mapBody (Enclosed.followedBy us) := plan_append h us
      rw [List.cons_append]
      cases hp : plan table t rest with
      | copy =>
        rw [hp] at hplan
        rw [renderTokens_copy hplan, renderTokens_copy hp, ih _ hlen hrest rfl, List.append_assoc]
      | tag tag attributes =>
        rw [hp] at hplan
        rw [renderTokens_tag hplan, renderTokens_tag hp, ih _ hlen hrest rfl, List.append_assoc]
      | content tag attributes key body =>
        rw [hp] at hplan
        have hbody : rest = body.inner ++ body.close :: body.after :=
          splitAtClose_eq (plan_body? (by rw [hp, Plan.body?]))
        rw [renderTokens_content hplan, renderTokens_content hp]
        simp only [Enclosed.followedBy, hafter body hbody, List.append_assoc]
      | container tag attributes site body =>
        rw [hp] at hplan
        have hbody : rest = body.inner ++ body.close :: body.after :=
          splitAtClose_eq (plan_body? (by rw [hp, Plan.body?]))
        rw [renderTokens_container hplan, renderTokens_container hp]
        simp only [Enclosed.followedBy, hafter body hbody, List.append_assoc]

/-! ## The two parts of a page -/

theorem closedAmong_of_matchingClose? (h : ∀ i < ts.length, ∀ t ∈ (ts ++ us)[i]?, t.directives table ≠ [] →
    (OpenTag.scan t.text).hasBody = true → ∃ j ∈ matchingClose? (ts ++ us) i, j < ts.length) :
    ClosedAmong table ts := by
  intro before t rest hts hd hbody
  have hopen : t.kind = .openTag := by
    by_contra hk
    exact hd (if_neg hk)
  have hplace : t ∈ (ts ++ us)[before.length]? := by simp [hts]
  obtain ⟨j, hj, hlt⟩ := h before.length (by simp [hts]) t hplace hd hbody
  have hwhole : ts ++ us = before ++ t :: (rest ++ us) := by simp [hts]
  rw [hwhole, matchingClose?_append_cons hopen, Option.mem_def, Option.map_eq_some_iff] at hj
  obtain ⟨e, he, rfl⟩ := hj
  refine Markup.exists_splitAtClose_of_lt he ?_
  simp only [hts, List.length_append, List.length_cons] at hlt
  omega

/-- **Two parts of a page are rendered side by side,** whatever the page looks like otherwise: it is cut between two of
its tokens, so that every open tag in front of the cut that has directives and a body has its close tag in front of
the cut too. -/
theorem renderWith_siblings {page back : Text} (c : Context) (hcut : tokens page = ts ++ us)
    (hpage : page = Token.source ts ++ back)
    (hclosed : ∀ i < ts.length, ∀ t ∈ (tokens page)[i]?, t.directives table ≠ [] →
      (OpenTag.scan t.text).hasBody = true → ∃ j ∈ matchingClose? (tokens page) i, j < ts.length) :
    renderWith table c page = renderWith table c (Token.source ts) ++ renderWith table c back := by
  obtain ⟨hfront, hback⟩ := Markup.tokens_parts hcut hpage
  rw [hcut] at hclosed
  rw [renderWith, renderWith, renderWith, hcut, hfront, hback]
  exact renderTokens_append (closedAmong_of_matchingClose? hclosed) us c

/-- The front of a broken page: a stray close tag, an element left open in a loop, and a void element at the end. -/
def brokenFront : Text :=
  "x < </b><ul data-nyanLoop=\"rows\"><li data-nyanString=\"name\">-</li><i></ul><br data-nyanId=\"mark\">"

/-- The rest of it: content that nothing bounds, a close tag of the front's name and the start of a tag. -/
def brokenBack : Text := "<p data-nyanString=\"mark\" data-nyanClass=\"mark\">y</ul><a"

/-- A record for the page. -/
def brokenRows : Context := .ofList [("mark", .text "m"), ("rows", .list [.ofList [("name", .text "a")], .empty])]

theorem renderWith_siblings_brokenFront :
    renderWith .standard brokenRows (brokenFront ++ brokenBack) =
      renderWith .standard brokenRows brokenFront ++
        "<p data-nyanString=\"mark\" class=\"m\" data-nyanDoneClass=\"mark\">y</ul>".toList := by
  have hfront : Token.source (tokens brokenFront) = brokenFront := by decide +kernel
  have hcut : tokens (brokenFront ++ brokenBack) = tokens brokenFront ++ tokens brokenBack := by decide +kernel
  have hpage : brokenFront ++ brokenBack = Token.source (tokens brokenFront) ++ brokenBack := by rw [hfront]
  have h : renderWith .standard brokenRows (brokenFront ++ brokenBack) =
      renderWith .standard brokenRows (Token.source (tokens brokenFront)) ++ renderWith .standard brokenRows brokenBack :=
    renderWith_siblings _ hcut hpage (by decide +kernel)
  rw [h, hfront]
  exact congrArg _ (by decide +kernel)

end Render

end MarkupLens
