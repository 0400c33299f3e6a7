/-
Where templates come from. A template is given as text, or its source stands
in: text in memory, or a file that is read when the template is wanted.
-/
import MarkupLens.Files
import MarkupLens.Render.Basic

namespace MarkupLens

/-- Why there is no template. -/
inductive TemplateError where
  /-- the file named by the caller cannot be read -/
  | unreadable (fault : FileFault)
  /-- the file that a source names cannot be read -/
  | sourceUnreadable (path : Text) (fault : FileFault)
  /-- no template was given and none is set -/
  | unset
  deriving DecidableEq, Repr

/-- The wording of an error. -/
def TemplateError.message : TemplateError → Text
  | .unreadable fault => "IO error: " ++ fault.message
  | .sourceUnreadable path fault => "IO error: " ++ path ++ ": " ++ fault.message
  | .unset => "IO error: no template given and render.default_template is not set"

/-- What stands in for a template that is not given. -/
inductive TemplateSource where
  | inline (text : Text)
  | file (path : Text)
  | unset
  deriving DecidableEq, Repr

namespace TemplateSource

variable {m : Type → Type} [Monad m]

/-- The template of a source. -/
def load (w : World m) : TemplateSource → m (Except TemplateError Text)
  | .inline text => pure (.ok text)
  | .file path => do
    match ← w.readText path with
    | .ok text => return .ok text
    | .error fault => return .error (.sourceUnreadable path fault)
  | .unset => pure (.error .unset)

end TemplateSource

namespace Template

variable {m : Type → Type} [Monad m]

/-- The template in a file. -/
def ofPath (w : World m) (path : Text) : m (Except TemplateError Text) := do
  match ← w.readText path with
  | .ok text => return .ok text
  | .error fault => return .error (.unreadable fault)

/-- Renders the template given, or else the one of the source. -/
def renderOr (w : World m) (c : Context) (template : Option Text) (source : TemplateSource) :
    m (Except TemplateError Text) := do
  match template with
  | some text => return .ok (Render.render c text)
  | none => return (← source.load w).map (Render.render c)

end Template

end MarkupLens
