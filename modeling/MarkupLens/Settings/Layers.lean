/-
Settings in layers: the built-in ones, files over them in the order given,
and single values over all files. What comes out must make sense as a whole;
where it does not, nothing is set.
-/
import MarkupLens.Context.Format
import MarkupLens.Files
import MarkupLens.Settings.Path

namespace MarkupLens

/-- The settings of the program. -/
structure Settings where
  /-- the template that is rendered when none is named -/
  defaultTemplate : Option Text
  /-- the form in which extracted contexts are written -/
  format : ContextFormat
  /-- whether JSON is laid out -/
  pretty : Bool
  /-- what goes to the log -/
  level : Text
  deriving DecidableEq, Repr

/-- Something laid over the settings so far. -/
inductive SettingLayer where
  /-- a file that must be there -/
  | file (path : Text)
  /-- a file that may be missing -/
  | optionalFile (path : Text)
  /-- a single value -/
  | single (key : Text) (value : SettingValue)

/-- Why there are no settings. -/
inductive SettingsError where
  /-- the key of a single value is no path -/
  | badKey (key : Text)
  /-- a file is missing, or is no TOML -/
  | badFile (path : Text)
  /-- the values make no sense as settings -/
  | badValues
  deriving DecidableEq, Repr

namespace SettingValue

/-- A value as a text. -/
def asText? : SettingValue → Option Text
  | .string s => some s
  | .boolean true => some "true"
  | .boolean false => some "false"
  | .integer n => some (Text.ofInt n)
  | .float x => some x.text
  | _ => none

/-- The words for on and off. -/
def flagOfWord? (s : Text) : Option Bool :=
  if ["1", "true", "on", "yes"].any fun w => Text.sameName w s then some true
  else if ["0", "false", "off", "no"].any fun w => Text.sameName w s then some false
  else none

/-- A value as a flag. Numbers other than zero are on. -/
def asFlag? : SettingValue → Option Bool
  | .boolean b => some b
  | .integer n => some (n != 0)
  | .float x => some (!x.isZero)
  | .string s => flagOfWord? s
  | _ => none

/-- A value as a form of contexts: its name, or a table whose only key is the name. -/
def asFormat? : SettingValue → Option ContextFormat
  | .string s => ContextFormat.ofName? s
  | .table [(key, _)] => ContextFormat.ofName? key
  | _ => none

/-- A field of a group of settings: the member of a name, or in an array the item at a place. -/
def field? (name : Text) (place : Nat) : SettingValue → Option (Option SettingValue)
  | .table ms => some (Keyed.lookup name ms)
  | .array vs => some vs[place]?
  | _ => none

/-- A value that may be missing. -/
def optionalText? : Option SettingValue → Option (Option Text)
  | none | some .nil => some none
  | some v => v.asText?.map some

end SettingValue

namespace Settings

/-- The settings that some values make. -/
def ofValues? (root : Keyed SettingValue) : Option Settings := do
  let defaultTemplate ← match Keyed.lookup "render" root with
    | none => some none
    | some render => (render.field? "default_template" 0).bind SettingValue.optionalText?
  let extract ← Keyed.lookup "extract" root
  let format ← (← extract.field? "format" 0).bind SettingValue.asFormat?
  let pretty ← (← extract.field? "pretty" 1).bind SettingValue.asFlag?
  let level ← (← (← Keyed.lookup "log" root).field? "level" 0).bind SettingValue.asText?
  return { defaultTemplate, format, pretty, level }

/-- The built-in values: JSON, laid out, with warnings in the log. -/
def builtIn : SettingValue :=
  .table [
    ("extract", .table [("format", .string "json"), ("pretty", .boolean true)]),
    ("log", .table [("level", .string "warn")]),
    ("render", .table [])]

/-- A key of a file laid over the values: it is read as a path if it is one. -/
def layKey (root : SettingValue) (m : Text × SettingValue) : SettingValue :=
  match SettingPath.ofText? m.1 with
  | some path => path.set m.2 root
  | none => .table (SettingValue.put m.1 root.members m.2)

/-- The values of a file laid over others. -/
def layFile (root : SettingValue) (members : List (Text × Toml)) : SettingValue :=
  (SettingValue.ofTomlMembers members).foldl layKey root

/-- The bytes without the mark that may stand at their start. -/
def dropMark : List UInt8 → List UInt8
  | 0xef :: 0xbb :: 0xbf :: bytes => bytes
  | bytes => bytes

/-- The path with the ending that a settings file may have. -/
def withEnding (path : Text) : Text := (path.reverse.dropWhile (· == '/')).reverse ++ ".toml"

variable {m : Type → Type} [Monad m]

/-- The bytes of the file at a path, or else at the path with the ending of settings files. -/
def findFile (w : World m) (path : Text) : m (Option (List UInt8)) := do
  match ← w.read path with
  | .ok bytes => return some bytes
  | .error _ =>
    match ← w.read (withEnding path) with
    | .ok bytes => return some bytes
    | .error _ => return none

/-- Lays a file over the values. -/
def addFile (w : World m) (root : SettingValue) (path : Text) (required : Bool) :
    m (Except SettingsError SettingValue) := do
  match ← findFile w path with
  | none => return if required then .error (.badFile path) else .ok root
  | some bytes =>
    match Toml.read? (Text.decodeLossy (dropMark bytes)) with
    | none => return .error (.badFile path)
    | some members => return .ok (layFile root members)

/-- Lays the files over the values; single values are passed over. -/
def addFiles (w : World m) (root : SettingValue) : List SettingLayer → m (Except SettingsError SettingValue)
  | [] => return .ok root
  | layer :: layers => do
    let added ← match layer with
      | .file path => addFile w root path true
      | .optionalFile path => addFile w root path false
      | .single .. => pure (.ok root)
    match added with
    | .error e => return .error e
    | .ok root => addFiles w root layers

/-- The single values with their paths. -/
def singles? : List SettingLayer → Except SettingsError (List (SettingPath × SettingValue))
  | [] => .ok []
  | .single key v :: layers =>
    match SettingPath.ofText? key with
    | none => .error (.badKey key)
    | some path => (singles? layers).map ((path, v) :: ·)
  | _ :: layers => singles? layers

/-- The settings of some layers over the built-in ones. -/
def load (w : World m) (layers : List SettingLayer) : m (Except SettingsError Settings) := do
  match singles? layers with
  | .error e => return .error e
  | .ok singles =>
    match ← addFiles w builtIn layers with
    | .error e => return .error e
    | .ok root =>
      let root := singles.foldl (fun root s => s.1.set s.2 root) root
      match ofValues? root.members with
      | some settings => return .ok settings
      | none => return .error .badValues

end Settings

end MarkupLens
