/-
JSON values. Numbers are kept exact when they are whole and fit 64 bits, and
are doubles otherwise; both have one text (`Number.text`).
-/
import MarkupLens.Keyed
import MarkupLens.Decimal.Notation

namespace MarkupLens

/-- A number of a JSON or YAML text. -/
inductive Number where
  | integer (value : Int)
  | double (value : Binary64)
  deriving DecidableEq, Repr

/-- A double shows all its places from `0.00001` up to `10 ^ 16`, and a whole one ends in `.0`. -/
def Number.style : DecimalStyle := ⟨fun power => -5 ≤ power && power < 16, true⟩

/-- The text of a number. -/
def Number.text : Number → Text
  | .integer i => Text.ofInt i
  | .double x => Number.style.text x

/-- A JSON value. The members of an object stand in the order of the list. -/
inductive Json where
  | null
  | bool (value : Bool)
  | number (value : Number)
  | string (text : Text)
  | array (items : List Json)
  | object (members : List (Text × Json))

namespace Json

/-- What a value is, as messages name it. -/
def kind : Json → Text
  | .null => "null"
  | .bool _ => "boolean"
  | .number _ => "number"
  | .string _ => "string"
  | .array _ => "array"
  | .object _ => "object"

end Json

end MarkupLens
