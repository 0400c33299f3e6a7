/-
The quick test of the walk. A tag whose text does not hold what every trigger
starts with is copied without a scan. The walk is one recursion over what is
planned at each token (`walk`), so it is enough that a scan of such a tag would
have planned nothing (`quick_eq_thorough`): a directive has its trigger for a
name, and the name of an attribute stands in the text of its tag. The test may
let through a tag without directives, and then the scan finds none, so a page
without directives is copied up to its tail.
-/
import MarkupLens.Proofs.Markup.Grammar
import MarkupLens.Proofs.Render.Siblings

namespace MarkupLens.Render

open Markup (splitAtClose splitAtClose_shorter tokens tail IsTail)

variable {table : DirectiveTable} {c : Context}

/-! ## The walk for any plan -/

/-- What is planned at a token in front of others; the body that a plan takes lies among them. -/
@[ext] structure Planner where
  planAt : Token → List Token → Plan
  shorter : ∀ {t rest body}, (planAt t rest).body? = some body →
    body.inner.length < rest.length ∧ body.after.length < rest.length

/-- The walk over some tokens that carries out what is planned at each of them. -/
def walk (planner : Planner) (c : Context) : List Token → Text
  | [] => []
  | t :: rest =>
    match h : planner.planAt t rest with
    | .copy => t.text ++ walk planner c rest
    | .tag tag attributes => editTag c tag attributes ++ walk planner c rest
    | .content tag attributes key body =>
      have := planner.shorter (by rw [h, Plan.body?])
      editTag c tag attributes ++
        ((((c.get? key).bind Value.asText?).or (loneComment? none body.inner)).getD (walk planner c body.inner)) ++
        body.close.text ++ walk planner c body.after
    | .container tag attributes site body =>
      have := planner.shorter (by rw [h, Plan.body?])
      (match site.scopes? c with
        | some scopes => editTag c tag attributes ++ scopes.flatMap fun scope => walk planner scope body.inner
        | none => t.text ++ Token.source body.inner) ++
        body.close.text ++ walk planner c body.after
termination_by tokens => tokens.length

namespace Planner

/-- Open tags that hold what every trigger starts with are scanned, all others are copied. -/
def quick (table : DirectiveTable) : Planner where
  planAt := plan table
  shorter := plan_shorter

/-- Every open tag is scanned. -/
def thorough (table : DirectiveTable) : Planner where
  planAt t rest := if t.kind = .openTag then planTag table (OpenTag.scan t.text) rest else .copy
  shorter h := by
    split at h
    · exact splitAtClose_shorter (planTag_body? h)
    · cases h

end Planner

/-! ## One equation for each plan -/

section

variable {planner : Planner} {t : Token} {rest : List Token}

theorem walk_copy (h : planner.planAt t rest = .copy) :
    walk planner c (t :: rest) = t.text ++ walk planner c rest := by
  rw [walk]
  split <;> simp_all

theorem walk_tag {tag : OpenTag} {attributes : SitedAttributes} (h : planner.planAt t rest = .tag tag attributes) :
    walk planner c (t :: rest) = editTag c tag attributes ++ walk planner c rest := by
  rw [walk]
  split <;> simp_all

theorem walk_content {tag : OpenTag} {attributes : SitedAttributes} {key : Text} {body : Enclosed}
    (h : planner.planAt t rest = .content tag attributes key body) :
    walk planner c (t :: rest) =
      editTag c tag attributes ++
        ((((c.get? key).bind Value.asText?).or (loneComment? none body.inner)).getD (walk planner c body.inner)) ++
        body.close.text ++ walk planner c body.after := by
  rw [walk]
  split <;> rename_i hp <;> rw [h] at hp <;> cases hp
  rfl

theorem walk_container {tag : OpenTag} {attributes : SitedAttributes} {site : Site} {body : Enclosed}
    (h : planner.planAt t rest = .container tag attributes site body) :
    walk planner c (t :: rest) =
      (match site.scopes? c with
        | some scopes => editTag c tag attributes ++ scopes.flatMap fun scope => walk planner scope body.inner
        | none => t.text ++ Token.source body.inner) ++
        body.close.text ++ walk planner c body.after := by
  rw [walk]
  split <;> rename_i hp <;> rw [h] at hp <;> cases hp
  rfl

end

/-- **Rendering is the walk** that the quick test plans. -/
theorem renderTokens_eq_walk (ts : List Token) (c : Context) :
    renderTokens table c ts = walk (.quick table) c ts := by
  -- on the length of the list, since the walk goes into bodies and on behind them
  induction hn : ts.length using Nat.strongRecOn generalizing ts c with
  | _ n ih =>
    cases ts with
    | nil => rw [renderTokens_nil, walk]
    | cons t rest =>
      have hlen : rest.length < n := by simp only [List.length_cons] at hn; omega
      cases hp : plan table t rest with
      | copy => rw [renderTokens_copy hp, walk_copy hp, ih _ hlen rest c rfl]
      | tag tag attributes => rw [renderTokens_tag hp, walk_tag hp, ih _ hlen rest c rfl]
      | content tag attributes key body =>
        obtain ⟨h1, h2⟩ := plan_shorter (by rw [hp, Plan.body?])
        rw [renderTokens_content hp, walk_content hp, ih _ (Nat.lt_trans h1 hlen) body.inner c rfl,
          ih _ (Nat.lt_trans h2 hlen) body.after c rfl]
      | container tag attributes site body =>
        obtain ⟨h1, h2⟩ := plan_shorter (by rw [hp, Plan.body?])
        have hinner := fun scope => ih _ (Nat.lt_trans h1 hlen) body.inner scope rfl
        rw [renderTokens_container hp, walk_container hp, ih _ (Nat.lt_trans h2 hlen) body.after c rfl]
        cases site.scopes? c with
        | none => rfl
        | some scopes => simp only [hinner]

/-! ## The test -/

/-- A scan of a tag without directives plans nothing. -/
theorem planTag_of_no_directives {t : Token} (hk : t.kind = .openTag) (h : t.directives table = []) (rest : List Token) :
    planTag table (OpenTag.scan t.text) rest = .copy := by
  rw [planTag_eq]
  refine planSites_of_no_sites (List.eq_nil_iff_forall_not_mem.2 fun s hs => ?_) _
  have hmem := mem_directives_of_mem_sitesOf hk hs
  rw [h] at hmem
  cases hmem

/-- **The test hides no directive:** nothing is planned at a tag that it keeps from being scanned. -/
theorem quick_eq_thorough (table : DirectiveTable) : Planner.quick table = Planner.thorough table := by
  refine Planner.ext (funext fun t => funext fun rest => ?_)
  show plan table t rest = if t.kind = .openTag then planTag table (OpenTag.scan t.text) rest else .copy
  unfold plan
  by_cases hk : t.kind = .openTag
  · by_cases hstem : Text.holds DirectiveKind.triggerStem t.text = true
    · rw [if_pos ⟨hk, hstem⟩, if_pos hk]
    · have hnone : t.directives table = [] :=
        List.eq_nil_iff_forall_not_mem.2 fun s hs => hstem (Token.holds_triggerStem hs)
      rw [if_neg fun h => hstem h.2, if_pos hk, planTag_of_no_directives hk hnone]
  · rw [if_neg fun h => hk h.1, if_neg hk]

/-- **Rendering is the walk that scans every open tag,** for every table, context and page; and a page none of whose
open tags has a directive with a key is left as it is, up to the tag or declaration without `>` at its end, whatever the
context. -/
theorem renderWith_eq_walk_thorough (table : DirectiveTable) (c : Context) (page : Text) :
    renderWith table c page = walk (.thorough table) c (tokens page) ∧
      ((∀ t ∈ tokens page, t.directives table = []) →
        renderWith table c page ++ tail page = page ∧ IsTail (tail page)) := by
  refine ⟨?_, fun h => ⟨?_, Markup.isTail_tail page⟩⟩
  · rw [renderWith, renderTokens_eq_walk, quick_eq_thorough]
  · have hcopied := renderTokens_of_no_directives (c := c) h []
    rw [List.append_nil, renderTokens_nil, List.append_nil] at hcopied
    rw [renderWith, hcopied, Markup.source_tokens_append_tail]

/-- A page with the name of a trigger in a value, in a comment, as a marker and with a value that is no key, and with a
tag at its end that is not closed. -/
def inertPage : Text :=
  "<p title=data-nyanString data-nyanString=\"a b\" data-nyanDoneLoop=k data-nyanloop=k>x</p>" ++
    "<!-- <b data-nyanString=k> --><a data-nyanId=k"

theorem renderWith_eq_walk_thorough_inertPage :
    (∀ t ∈ tokens inertPage, t.directives .standard = []) ∧ tail inertPage = "<a data-nyanId=k".toList ∧
      renderWith .standard (.ofList [("k", .text "v")]) inertPage ++ tail inertPage = inertPage := by
  have h : ∀ t ∈ tokens inertPage, t.directives .standard = [] := by decide +kernel
  exact ⟨h, by decide +kernel, ((renderWith_eq_walk_thorough .standard _ inertPage).2 h).1⟩

end MarkupLens.Render
