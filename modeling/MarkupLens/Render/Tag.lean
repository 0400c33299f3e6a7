/-
Editing the open tag of a directive element. Each site gives way to its
marker, behind the attribute that it writes; a literal attribute of a name
that is written is taken out, with the blanks in front of it. All the rest
of the tag is copied.
-/
import MarkupLens.Context.Basic
import MarkupLens.Render.Site

namespace MarkupLens.Render

open Text (allBlank trimEnd isBlank)

/-- The text that a site gives way to. -/
def replacement (c : Context) (s : Site) : Text :=
  let marker := s.kind.markerFor s.key
  match s.kind.binding with
  | .attribute name =>
    let value := ((c.get? s.key).bind Value.asText?).getD []
    name ++ "=\"" ++ value ++ "\" " ++ marker
  | .boolean name => if (c.get? s.key).any (Value.asksFor name) then name ++ ' ' :: marker else marker
  | .content | .loop | .scope => marker

/-- What becomes of an attribute. -/
inductive Edit where
  | keep
  | replace (text : Text)
  | remove

/-- The names of the attributes that some sites write. -/
def written (sites : List Site) : List Text := sites.filterMap (·.kind.binding.target?)

/-- What becomes of an attribute when attributes of some names are written. -/
def edit (c : Context) (names : List Text) (a : Attribute) : Option Site → Edit
  | some s => .replace (replacement c s)
  | none => if names.any (Text.sameName a.name) then .remove else .keep

/-- The last character is blank. -/
def endsBlank (s : Text) : Bool := s.getLast?.any isBlank

/-- The attributes edited. `kept` is the text since the last edit, and `cut` says that the text up to that
edit ended in a blank. The blanks in front of an attribute go with it; if they reach back over the last
edit, the attribute stays. -/
def splice (cut : Bool) (kept : Text) (ending : Text) : List (Attribute × Edit) → Text
  | [] => kept ++ ending
  | (a, .keep) :: rest => splice cut (kept ++ a.gap ++ a.written) ending rest
  | (a, .replace text) :: rest => kept ++ a.gap ++ text ++ splice (endsBlank a.written) [] ending rest
  | (a, .remove) :: rest =>
    let before := kept ++ a.gap
    if cut && allBlank before then splice cut (before ++ a.written) ending rest
    else trimEnd before ++ splice (endsBlank a.written) [] ending rest

/-- The open tag, edited. -/
def editTag (c : Context) (tag : OpenTag) (attributes : SitedAttributes) : Text :=
  let names := written attributes.sites
  splice false (tag.opening ++ tag.name) (tag.gap ++ tag.closing)
    (attributes.map fun p => (p.1, edit c names p.1 p.2))

end MarkupLens.Render
