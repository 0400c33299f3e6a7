/-
The context in the text of a file. The name of the file says whether it is
YAML; everything else is JSON.
-/
import MarkupLens.Context.Format
import MarkupLens.Context.OfJson
import MarkupLens.Files
import MarkupLens.Yaml.Reader

namespace MarkupLens

/-- Why the text of a file is no context. -/
inductive ContextFileError where
  /-- the text is not of the form that the name of the file says -/
  | malformed (format : ContextFormat)
  /-- what the text holds is no context -/
  | invalid (error : ContextError)
  deriving DecidableEq, Repr

/-- The wording of an error. What is wrong with a malformed text is not told here. -/
def ContextFileError.message : ContextFileError → Text
  | .malformed .json => "Invalid JSON context"
  | .malformed .yaml => "Invalid YAML context"
  | .invalid e => "Invalid context: " ++ e.message

namespace Files

/-- The name of the file at a path, if the path leads to a name. -/
def fileName? (path : Text) : Option Text :=
  match (Tree.place path).getLast? with
  | some ['.', '.'] | none => none
  | some name => some name

/-- What follows the last dot of a file's name, unless the dot is its start. -/
def ending? (name : Text) : Option Text :=
  let ending := (name.reverse.takeWhile (· != '.')).reverse
  if ending.length + 1 < name.length then some ending else none

end Files

/-- The form of the contexts in a file. -/
def ContextFormat.ofPath (path : Text) : ContextFormat :=
  match (Files.fileName? path).bind Files.ending? with
  | some ending => if ending == "yaml" || ending == "yml" then .yaml else .json
  | none => .json

/-- The host data in a text. -/
def ContextFormat.read? (s : Text) : ContextFormat → Option Json
  | .json => Json.read? (some Json.depthLimit) s
  | .yaml => Yaml.read? s

/-- The context in the text of the file at a path. -/
def Context.ofFile (path s : Text) : Except ContextFileError Context :=
  let format := ContextFormat.ofPath path
  match format.read? s with
  | none => .error (.malformed format)
  | some value => (Context.ofJson value).mapError .invalid

end MarkupLens
