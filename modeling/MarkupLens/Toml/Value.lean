/-
TOML values and tables.
-/
import MarkupLens.Decimal.Notation
import MarkupLens.Keyed

namespace MarkupLens

/-- A floating-point number of a TOML text. -/
inductive TomlFloat where
  | finite (value : Binary64)
  | infinite (negative : Bool)
  | nan
  deriving DecidableEq, Repr

namespace TomlFloat

/-- A float shows all its places, and no point if it is whole. -/
def style : DecimalStyle := ⟨fun _ => true, false⟩

/-- The text of a float. -/
def text : TomlFloat → Text
  | .finite x => style.text x
  | .infinite true => "-inf"
  | .infinite false => "inf"
  | .nan => "NaN"

/-- Only the two zeros are zero. -/
def isZero : TomlFloat → Bool
  | .finite x => x.isZero
  | _ => false

end TomlFloat

/-- A TOML value. A point in time is its text. -/
inductive Toml where
  | string (text : Text)
  | integer (value : Int)
  | float (value : TomlFloat)
  | boolean (value : Bool)
  | moment (text : Text)
  | array (items : List Toml)
  | table (members : List (Text × Toml))

end MarkupLens
