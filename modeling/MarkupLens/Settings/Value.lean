/-
Values of settings before they are given a meaning: what files and overrides
put together. Tables of a later layer are merged into those of an earlier
one, key by key; any other value replaces what was there.
-/
import MarkupLens.Toml.Document

namespace MarkupLens

/-- A value of a setting. -/
inductive SettingValue where
  | nil
  | boolean (value : Bool)
  | integer (value : Int)
  | float (value : TomlFloat)
  | string (text : Text)
  | array (items : List SettingValue)
  | table (members : List (Text × SettingValue))

namespace SettingValue

mutual

/-- The value that a TOML value stands for; a point in time is its text. -/
def ofToml : Toml → SettingValue
  | .string s => .string s
  | .integer n => .integer n
  | .float x => .float x
  | .boolean b => .boolean b
  | .moment s => .string s
  | .array items => .array (ofTomlItems items)
  | .table members => .table (ofTomlMembers members)

/-- The same for the items of an array. -/
def ofTomlItems : List Toml → List SettingValue
  | [] => []
  | v :: vs => ofToml v :: ofTomlItems vs

/-- The same for the members of a table. -/
def ofTomlMembers : List (Text × Toml) → List (Text × SettingValue)
  | [] => []
  | (key, v) :: ms => (key, ofToml v) :: ofTomlMembers ms

end

/-- The members of a table; any other value has none. -/
def members : SettingValue → Keyed SettingValue
  | .table ms => ms
  | _ => []

/-- The items of an array; any other value has none. -/
def items : SettingValue → List SettingValue
  | .array vs => vs
  | _ => []

mutual

/-- Puts a value at a key. The members of a table are merged into what is there. -/
def put (key : Text) (into : Keyed SettingValue) : SettingValue → Keyed SettingValue
  | .table ms => into.insert key (putAll ((Keyed.lookup key into).getD (.table [])) ms)
  | v => into.insert key v

/-- Merges members into a value, which becomes a table unless there are none. -/
def putAll (into : SettingValue) : List (Text × SettingValue) → SettingValue
  | [] => into
  | (key, v) :: ms => putAll (.table (put key into.members v)) ms

end

end SettingValue

end MarkupLens
