/-
Rendering: one walk over the tokens of a template. A token is copied unless
it is an open tag with sites (`plan`). A closed container has its body
rendered again, once per record of its list or against its record, and this
is the only place where the context changes; a content element has its body
replaced; any other tag is edited and its body walked as it stands.

Rendering cannot fail. Content that is not bound keeps its literal body, or
the inside of a comment standing alone in it; an attribute that is not bound
is written empty; a container whose value is missing or of another kind, or
that is never closed, is copied as written.
-/
import MarkupLens.Markup.Nesting
import MarkupLens.Render.Tag

namespace MarkupLens.Render

open Text (allBlank trim dropStart dropEnding)
open Markup (splitAtClose splitAtClose_shorter tokens)

/-- What the walk does at a token. -/
inductive Plan where
  /-- the token is copied -/
  | copy
  /-- the tag is edited -/
  | tag (tag : OpenTag) (attributes : SitedAttributes)
  /-- the tag is edited and its body replaced by what is bound to the key -/
  | content (tag : OpenTag) (attributes : SitedAttributes) (key : Text) (body : Enclosed)
  /-- the body is rendered for what is bound at the site -/
  | container (tag : OpenTag) (attributes : SitedAttributes) (site : Site) (body : Enclosed)

/-- The plan for a tag with sites, whose body is `body` if it is closed. -/
def planSites (tag : OpenTag) (attributes : SitedAttributes) (body : Option Enclosed) : Plan :=
  if attributes.sites.isEmpty then .copy
  else
    match attributes.container?, body with
    | some _, none => .copy
    | some site, some body => .container tag attributes site body
    | none, some body =>
      match attributes.content? with
      | some site => .content tag attributes site.key body
      | none => .tag tag attributes
    | none, none => .tag tag attributes

/-- The plan for an open tag and the tokens after it. Content that no close tag bounds is given up. -/
def planTag (table : DirectiveTable) (tag : OpenTag) (rest : List Token) : Plan :=
  let attributes := SitedAttributes.of table tag
  if tag.hasBody then
    let body := if attributes.sites.isEmpty then none else splitAtClose tag.name 0 rest
    planSites tag (if body.isNone then attributes.release Site.isContent else attributes) body
  else planSites tag attributes none

/-- The plan for a token and those after it. A tag whose text does not hold what every trigger starts with
needs no scan. -/
def plan (table : DirectiveTable) (t : Token) (rest : List Token) : Plan :=
  if t.kind = .openTag ∧ Text.holds DirectiveKind.triggerStem t.text = true then
    planTag table (OpenTag.scan t.text) rest
  else .copy

/-- The inside of a comment. -/
def commentText (raw : Text) : Text := trim (dropEnding "-->" (dropStart "<!--" raw))

/-- The inside of a comment that is all of a body but for blank text; `found` is one met before. -/
def loneComment? (found : Option Text) : List Token → Option Text
  | [] => found
  | t :: ts =>
    match t.kind with
    | .text => if allBlank t.text then loneComment? found ts else none
    | .comment => if found.isNone then loneComment? (some (commentText t.text)) ts else none
    | _ => none

/-- The body that a plan takes. -/
def Plan.body? : Plan → Option Enclosed
  | .copy | .tag _ _ => none
  | .content _ _ _ body | .container _ _ _ body => some body

theorem planSites_body? {tag : OpenTag} {attributes : SitedAttributes} {found : Option Enclosed} {body : Enclosed}
    (h : (planSites tag attributes found).body? = some body) : found = some body := by
  unfold planSites at h
  split at h
  · cases h
  · split at h
    · cases h
    · exact h
    · split at h
      · exact h
      · cases h
    · cases h

/-- The body that is planned for a tag is what its close tag bounds. -/
theorem planTag_body? {table : DirectiveTable} {tag : OpenTag} {rest : List Token} {body : Enclosed}
    (h : (planTag table tag rest).body? = some body) : splitAtClose tag.name 0 rest = some body := by
  unfold planTag at h
  split at h
  · have hfound := planSites_body? h
    split at hfound
    · cases hfound
    · exact hfound
  · cases planSites_body? h

theorem plan_body? {table : DirectiveTable} {t : Token} {rest : List Token} {body : Enclosed}
    (h : (plan table t rest).body? = some body) : splitAtClose (OpenTag.scan t.text).name 0 rest = some body := by
  unfold plan at h
  split at h
  · exact planTag_body? h
  · cases h

/-- The body that is planned and what follows it are shorter than what follows the tag. -/
theorem plan_shorter {table : DirectiveTable} {t : Token} {rest : List Token} {body : Enclosed}
    (h : (plan table t rest).body? = some body) :
    body.inner.length < rest.length ∧ body.after.length < rest.length :=
  splitAtClose_shorter (plan_body? h)

/-- What some tokens are rendered to. -/
def renderTokens (table : DirectiveTable) (c : Context) : List Token → Text
  | [] => []
  | t :: rest =>
    match _h : plan table t rest with
    | .copy => t.text ++ renderTokens table c rest
    | .tag tag attributes => editTag c tag attributes ++ renderTokens table c rest
    | .content tag attributes key body =>
      let content :=
        match (c.get? key).bind Value.asText? with
        | some text => text
        | none =>
          match loneComment? none body.inner with
          | some text => text
          | none => renderTokens table c body.inner
      editTag c tag attributes ++ content ++ body.close.text ++ renderTokens table c body.after
    | .container tag attributes site body =>
      let after := renderTokens table c body.after
      match site.kind.binding, c.get? site.key with
      | .loop, some (.list items) =>
        editTag c tag attributes ++ items.flatMap (fun item => renderTokens table item body.inner) ++
          body.close.text ++ after
      | .scope, some (.record record) =>
        editTag c tag attributes ++ renderTokens table record body.inner ++ body.close.text ++ after
      | _, _ => t.text ++ Token.source body.inner ++ body.close.text ++ after
termination_by tokens => tokens.length
decreasing_by
  all_goals simp only [List.length_cons]
  all_goals first
    | omega
    | (have h := plan_shorter (congrArg Plan.body? _h); omega)

/-- The template rendered against a context, with the directives of a table. -/
def renderWith (table : DirectiveTable) (c : Context) (template : Text) : Text :=
  renderTokens table c (tokens template)

/-- The template rendered against a context. -/
def render (c : Context) (template : Text) : Text := renderWith .standard c template

end MarkupLens.Render
