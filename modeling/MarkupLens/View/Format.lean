/-
The forms in which a page is shown: the context it gives, as JSON or YAML,
or what lies on the way there.
-/
import MarkupLens.Context.OfJson
import MarkupLens.Extract
import MarkupLens.View.Listing
import MarkupLens.View.Outline
import MarkupLens.Yaml.Printer

namespace MarkupLens.View

/-- A form in which a page is shown. -/
inductive Format where
  | json
  | yaml
  | treeJson
  | outline
  | tokenJson
  deriving DecidableEq, Repr

namespace Format

/-- Every form. -/
def all : List Format := [.json, .yaml, .treeJson, .outline, .tokenJson]

/-- The name by which a form is asked for. -/
def name : Format → Text
  | .json => "json"
  | .yaml => "yaml"
  | .treeJson => "tree-json"
  | .outline => "treeviz"
  | .tokenJson => "token-json"

/-- The form of a name. -/
def ofName? (n : Text) : Option Format := all.find? (·.name == n)

theorem ofName?_name (f : Format) : ofName? f.name = some f := by cases f <;> decide

/-- The wording where a name is not known. -/
def unknown (n : Text) : Text :=
  "Unknown format: " ++ n ++ " (available: " ++ Text.joinWith ", " (all.map name) ++ ")"

/-- A page in a form. JSON is laid out on request. -/
def write (f : Format) (pretty : Bool) (page : Text) : Text :=
  match f with
  | .json => (Extract.extract page).toJson.write pretty ++ ['\n']
  | .yaml => Yaml.write (Extract.extract page)
  | .treeJson => (View.tree page).write pretty ++ ['\n']
  | .outline => View.outline page
  | .tokenJson => (View.tokens page).write pretty ++ ['\n']

end Format

end MarkupLens.View
