/-
The forms that a context has as text.
-/
import MarkupLens.Text.Basic

namespace MarkupLens

/-- A form of contexts as text. -/
inductive ContextFormat where
  | json
  | yaml
  deriving DecidableEq, Repr

namespace ContextFormat

/-- The name of a form. -/
def name : ContextFormat → Text
  | .json => "json"
  | .yaml => "yaml"

/-- The form of a name, which may have capital letters. -/
def ofName? (n : Text) : Option ContextFormat := [json, yaml].find? fun f => Text.sameName f.name n

theorem ofName?_name (f : ContextFormat) : ofName? f.name = some f := by cases f <;> decide

end ContextFormat

end MarkupLens
