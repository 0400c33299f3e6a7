/-
The walk over the tokens, one equation for each plan, and the fact that it
does not see where one run of text ends and the next one starts
(`renderTokens_join`). With it a template may be thought of as the tokens it
was put together from, whatever runs of text stand next to each other.
-/
import MarkupLens.Proofs.Render.Evaluate
import MarkupLens.Render.Basic

namespace MarkupLens

open Text (allBlank)
open Token (glue join)

/-- The tokens on both sides of a close tag, with adjacent runs of text as one. -/
def Enclosed.joined (e : Enclosed) : Enclosed := ⟨join e.inner, e.close, join e.after⟩

namespace Render

open Markup (splitAtClose closes opens)

variable {table : DirectiveTable} {c : Context}

/-! ## One equation for each plan -/

theorem renderTokens_nil : renderTokens table c [] = [] := by rw [renderTokens]

theorem renderTokens_copy {t : Token} {rest : List Token} (h : plan table t rest = .copy) :
    renderTokens table c (t :: rest) = t.text ++ renderTokens table c rest := by
  rw [renderTokens]
  split <;> simp_all

theorem renderTokens_tag {t : Token} {rest : List Token} {tag : OpenTag} {attributes : SitedAttributes}
    (h : plan table t rest = .tag tag attributes) :
    renderTokens table c (t :: rest) = editTag c tag attributes ++ renderTokens table c rest := by
  rw [renderTokens]
  split <;> simp_all

/-- A content element shows the text bound, or else the lone comment, or else its own body rendered. -/
theorem renderTokens_content {t : Token} {rest : List Token} {tag : OpenTag} {attributes : SitedAttributes}
    {key : Text} {body : Enclosed} (h : plan table t rest = .content tag attributes key body) :
    renderTokens table c (t :: rest) =
      editTag c tag attributes ++
        ((((c.get? key).bind Value.asText?).or (loneComment? none body.inner)).getD (renderTokens table c body.inner)) ++
        body.close.text ++ renderTokens table c body.after := by
  rw [renderTokens]
  split <;> rename_i hp <;> rw [h] at hp <;> cases hp
  cases (c.get? key).bind Value.asText? with
  | some s => rfl
  | none => cases loneComment? none body.inner <;> rfl

/-- A container shows its body once for each of its records, or is copied if it has none. -/
theorem renderTokens_container {t : Token} {rest : List Token} {tag : OpenTag} {attributes : SitedAttributes}
    {site : Site} {body : Enclosed} (h : plan table t rest = .container tag attributes site body) :
    renderTokens table c (t :: rest) =
      (match site.scopes? c with
        | some scopes => editTag c tag attributes ++ scopes.flatMap fun scope => renderTokens table scope body.inner
        | none => t.text ++ Token.source body.inner) ++
        body.close.text ++ renderTokens table c body.after := by
  rw [renderTokens]
  split <;> rename_i hp <;> rw [h] at hp <;> cases hp
  rw [Site.scopes?]
  cases site.kind.binding with
  | content | «attribute» name | boolean name => simp
  | loop | scope =>
    cases c.get? site.key with
    | none => simp
    | some v => cases v <;> simp

/-! ## Runs of text -/

theorem plan_of_kind {t : Token} {rest : List Token} (h : t.kind ≠ .openTag) : plan table t rest = .copy := by
  simp [plan, h]

theorem renderTokens_glue (s : Text) (ts : List Token) :
    renderTokens table c (glue s ts) = s ++ renderTokens table c ts := by
  have htext : ∀ u us, renderTokens table c (⟨.text, u⟩ :: us) = u ++ renderTokens table c us :=
    fun u us => renderTokens_copy (plan_of_kind (by simp))
  cases ts with
  | nil => by_cases h : s = [] <;> simp [glue, h, htext, renderTokens_nil]
  | cons t ts =>
    obtain ⟨k, u⟩ := t
    by_cases hk : k = .text
    · subst hk
      simp [glue, htext]
    · by_cases h : s = [] <;> simp [glue, hk, h, htext]

theorem closes_text (name s : Text) : closes name ⟨.text, s⟩ = false := by
  simp [closes, show (TokenKind.text == TokenKind.closeTag) = false from rfl]

theorem opens_text (name s : Text) : opens name ⟨.text, s⟩ = false := by
  simp [opens, show (TokenKind.text == TokenKind.openTag) = false from rfl]

theorem splitAtClose_text (name : Text) (depth : Nat) (s : Text) (ts : List Token) :
    splitAtClose name depth (⟨.text, s⟩ :: ts) =
      (splitAtClose name depth ts).map fun e => { e with inner := ⟨.text, s⟩ :: e.inner } := by
  simp [splitAtClose, closes_text, opens_text]

theorem glue_of_head (s : Text) {ts : List Token} (h : ∀ t ∈ ts.head?, t.kind ≠ .text) :
    glue s ts = if s = [] then ts else ⟨.text, s⟩ :: ts := by
  cases ts with
  | nil => rfl
  | cons t ts => simp [glue, h t rfl]

theorem splitAtClose_glue (name : Text) (depth : Nat) (s : Text) (ts : List Token) :
    splitAtClose name depth (glue s ts) =
      (splitAtClose name depth ts).map fun e => { e with inner := glue s e.inner } := by
  cases ts with
  | nil => by_cases h : s = [] <;> simp [glue, h, splitAtClose_text, splitAtClose]
  | cons t ts =>
    by_cases hk : t.kind = .text
    · obtain ⟨k, u⟩ := t
      obtain rfl : k = .text := hk
      simp [glue, splitAtClose_text, Function.comp_def]
    · have hhead : ∀ e, splitAtClose name depth (t :: ts) = some e → ∀ u ∈ e.inner.head?, u.kind ≠ .text := by
        intro e he u hu
        have heq := Markup.splitAtClose_eq he
        cases hi : e.inner with
        | nil => simp [hi] at hu
        | cons v vs =>
          simp only [hi, List.cons_append, List.cons.injEq, List.head?_cons, Option.mem_some] at heq hu
          rw [← hu, ← heq.1]
          exact hk
      rw [glue_of_head s (by simpa using hk)]
      by_cases hs : s = []
      · simp only [hs, if_true]
        cases he : splitAtClose name depth (t :: ts) with
        | none => rfl
        | some e => simp [glue_of_head [] (hhead e he)]
      · simp only [hs, if_false, splitAtClose_text]
        cases he : splitAtClose name depth (t :: ts) with
        | none => rfl
        | some e => simp [glue_of_head s (hhead e he), hs]

theorem splitAtClose_join (name : Text) (depth : Nat) (ts : List Token) :
    splitAtClose name depth (join ts) = (splitAtClose name depth ts).map Enclosed.joined := by
  induction ts generalizing depth with
  | nil => rfl
  | cons t ts ih =>
    by_cases hk : t.kind = .text
    · obtain ⟨k, u⟩ := t
      obtain rfl : k = .text := hk
      simp [join, splitAtClose_glue, splitAtClose_text, ih, Function.comp_def, Enclosed.joined]
    · simp only [join, hk, if_false, splitAtClose, ih]
      split
      · split
        · rfl
        · simp [Function.comp_def, Enclosed.joined, join, hk]
      · simp [Function.comp_def, Enclosed.joined, join, hk]

theorem loneComment?_glue (found : Option Text) (s : Text) (ts : List Token) :
    loneComment? found (glue s ts) = if allBlank s then loneComment? found ts else none := by
  have hnil : s = [] → allBlank s = true := by rintro rfl; rfl
  cases ts with
  | nil => by_cases h : s = [] <;> simp [glue, h, loneComment?]
  | cons t ts =>
    by_cases hk : t.kind = .text
    · by_cases hs : allBlank s = true <;> simp [glue, hk, loneComment?, hs]
    · by_cases hs : s = []
      · simp [glue, hk, hs]
      · simp [glue, hk, hs, loneComment?]

theorem loneComment?_join (found : Option Text) (ts : List Token) :
    loneComment? found (join ts) = loneComment? found ts := by
  induction ts generalizing found with
  | nil => rfl
  | cons t ts ih =>
    by_cases hk : t.kind = .text
    · simp [join, hk, loneComment?_glue, loneComment?, ih]
    · simp only [join, hk, if_false, loneComment?, ih]

theorem source_join (ts : List Token) : Token.source (join ts) = Token.source ts := by
  induction ts with
  | nil => rfl
  | cons t ts ih =>
    by_cases hk : t.kind = .text
    · simp [join, hk, Token.source_glue, ih]
    · simp [join, hk, ih]

/-- The plan with another body in place of its own. -/
def Plan.mapBody (f : Enclosed → Enclosed) : Plan → Plan
  | .copy => .copy
  | .tag t attributes => .tag t attributes
  | .content t attributes key body => .content t attributes key (f body)
  | .container t attributes site body => .container t attributes site (f body)

theorem planSites_map (f : Enclosed → Enclosed) (tag : OpenTag) (attributes : SitedAttributes) (body : Option Enclosed) :
    planSites tag attributes (body.map f) = (planSites tag attributes body).mapBody f := by
  unfold planSites
  split
  · rfl
  · cases body <;> cases attributes.container? <;> cases attributes.content? <;> rfl

/-- **Of what follows its tag** a plan takes the body and nothing else. -/
theorem plan_mapBody {f : Enclosed → Enclosed} {t : Token} {ts us : List Token}
    (h : (OpenTag.scan t.text).hasBody = true → splitAtClose (OpenTag.scan t.text).name 0 us =
      (splitAtClose (OpenTag.scan t.text).name 0 ts).map f) : plan table t us = (plan table t ts).mapBody f := by
  unfold plan planTag
  split
  · dsimp only
    split
    · rename_i hbody
      rw [h hbody]
      split
      · exact planSites_map f _ _ none
      · rw [Option.isNone_map]
        exact planSites_map f _ _ _
    · exact planSites_map f _ _ none
  · rfl

theorem plan_join (t : Token) (ts : List Token) : plan table t (join ts) = (plan table t ts).mapBody Enclosed.joined :=
  plan_mapBody fun _ => splitAtClose_join _ 0 ts

/-- **The walk does not see where runs of text end.** -/
theorem renderTokens_join (ts : List Token) (c : Context) :
    renderTokens table c (join ts) = renderTokens table c ts := by
  induction hn : ts.length using Nat.strongRecOn generalizing ts c with
  | _ n ih =>
    cases ts with
    | nil => rfl
    | cons t ts =>
      have hlen : ts.length < n := by simp only [List.length_cons] at hn; omega
      by_cases hk : t.kind = .text
      · have hcopy : plan table t ts = .copy := plan_of_kind (by simp [hk])
        rw [join, if_pos hk, renderTokens_glue, renderTokens_copy hcopy, ih _ hlen ts c rfl]
      · rw [join, if_neg hk]
        have hj : plan table t (join ts) = (plan table t ts).mapBody Enclosed.joined := plan_join t ts
        cases hp : plan table t ts with
        | copy =>
          rw [hp] at hj
          rw [renderTokens_copy hj, renderTokens_copy hp, ih _ hlen ts c rfl]
        | tag tag attributes =>
          rw [hp] at hj
          rw [renderTokens_tag hj, renderTokens_tag hp, ih _ hlen ts c rfl]
        | content tag attributes key body =>
          obtain ⟨h1, h2⟩ := plan_shorter (by rw [hp, Plan.body?])
          rw [hp] at hj
          rw [renderTokens_content hj, renderTokens_content hp]
          simp only [Enclosed.joined, loneComment?_join, ih _ (Nat.lt_trans h1 hlen) body.inner c rfl,
            ih _ (Nat.lt_trans h2 hlen) body.after c rfl]
        | container tag attributes site body =>
          obtain ⟨h1, h2⟩ := plan_shorter (by rw [hp, Plan.body?])
          rw [hp] at hj
          rw [renderTokens_container hj, renderTokens_container hp]
          simp only [Enclosed.joined, source_join, fun scope => ih _ (Nat.lt_trans h1 hlen) body.inner scope rfl,
            ih _ (Nat.lt_trans h2 hlen) body.after c rfl]

end Render

end MarkupLens
