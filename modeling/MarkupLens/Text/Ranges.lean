/-
Sets of characters given as ranges of code points, the form in which the
tables of a character property are written.
-/
import MarkupLens.Text.Basic

namespace MarkupLens.Text

/-- Ranges of code points, both ends included. -/
abbrev Ranges := List (Nat × Nat)

/-- Whether a code point lies in one of the ranges. -/
def Ranges.holds (ranges : Ranges) (n : Nat) : Bool := ranges.any fun r => r.1 ≤ n && n ≤ r.2

end MarkupLens.Text
