/-
The text of a JSON value: compact, without any space, or laid out, with
every item and member on a line of its own and two spaces per level. Empty
arrays and objects are `[]` and `{}` in both.
-/
import MarkupLens.Json.Value

namespace MarkupLens.Json

/-- The two hexadecimal digits of a number below 256. -/
def hexPair (n : Nat) : Text := [Nat.digitChar (n / 16 % 16), Nat.digitChar (n % 16)]

/-- One character of a string. Quotes, backslashes and controls are escaped, nothing else is. -/
def escapedChar (c : Char) : Text :=
  if c = '"' then "\\\""
  else if c = '\\' then "\\\\"
  else if c = '\x08' then "\\b"
  else if c = '\x0c' then "\\f"
  else if c = '\n' then "\\n"
  else if c = '\r' then "\\r"
  else if c = '\t' then "\\t"
  else if c.toNat < 0x20 then "\\u00" ++ hexPair c.toNat
  else [c]

/-- A string between its quotes. -/
def writeString (s : Text) : Text := '"' :: s.flatMap escapedChar ++ ['"']

/-- The space written between the parts of a value. -/
structure Layout where
  /-- in front of an item or member at that depth, and of a closing bracket -/
  line : (depth : Nat) → Text
  /-- after the colon of a member -/
  afterColon : Text

/-- No space at all. -/
def Layout.compact : Layout := ⟨fun _ => [], []⟩

/-- A line for each item and member, two spaces per level. -/
def Layout.pretty : Layout := ⟨fun depth => '\n' :: List.replicate (2 * depth) ' ', [' ']⟩

mutual

/-- The text of a value whose first character stands at a depth. -/
def writeAt (layout : Layout) (depth : Nat) : Json → Text
  | .null => "null"
  | .bool true => "true"
  | .bool false => "false"
  | .number n => n.text
  | .string s => writeString s
  | .array [] => "[]"
  | .array (item :: items) =>
    '[' :: layout.line (depth + 1) ++ writeAt layout (depth + 1) item ++ writeItems layout (depth + 1) items ++
      layout.line depth ++ [']']
  | .object [] => ['\x7b', '\x7d']
  | .object ((key, value) :: members) =>
    '\x7b' :: layout.line (depth + 1) ++ writeString key ++ ':' :: layout.afterColon ++
      writeAt layout (depth + 1) value ++ writeMembers layout (depth + 1) members ++ layout.line depth ++ ['\x7d']

/-- The items after the first one, each after a comma. -/
def writeItems (layout : Layout) (depth : Nat) : List Json → Text
  | [] => []
  | item :: items => ',' :: layout.line depth ++ writeAt layout depth item ++ writeItems layout depth items

/-- The members after the first one, each after a comma. -/
def writeMembers (layout : Layout) (depth : Nat) : List (Text × Json) → Text
  | [] => []
  | (key, value) :: members =>
    ',' :: layout.line depth ++ writeString key ++ ':' :: layout.afterColon ++ writeAt layout depth value ++
      writeMembers layout depth members

end

/-- The text of a value. -/
def write (pretty : Bool) (value : Json) : Text := writeAt (if pretty then .pretty else .compact) 0 value

end MarkupLens.Json
