/-
How a decimal is written: all its places (`12.5`), or one digit before the
point and a power of ten (`1.25e+1`). A `DecimalStyle` says which numbers get
which form.
-/
import MarkupLens.Text.Basic
import MarkupLens.Decimal.Shortest

namespace MarkupLens

/-- The choices in the text of a number. -/
structure DecimalStyle where
  /-- whether a number whose leading digit stands for that power of ten is written with all its places -/
  positional : Int → Bool
  /-- whether a whole number written with all its places ends in `.0` -/
  pointZero : Bool

namespace DecimalStyle

/-- The digits with a power of ten. -/
def scientific (digits : Text) (power : Int) : Text :=
  let sign : Text := if 0 ≤ power then "+" else "-"
  let mantissa : Text := match digits with
    | [] => []
    | [d] => [d]
    | d :: rest => d :: '.' :: rest
  mantissa ++ 'e' :: sign ++ Text.ofNat power.natAbs

/-- The digits with the point after the first `place` of them; zeros fill up on either side. -/
def allPlaces (pointZero : Bool) (digits : Text) (place : Int) : Text :=
  if place ≤ 0 then "0." ++ List.replicate (-place).toNat '0' ++ digits
  else if (digits.length : Int) ≤ place then
    digits ++ List.replicate (place.toNat - digits.length) '0' ++ (if pointZero then ".0" else "")
  else digits.take place.toNat ++ '.' :: digits.drop place.toNat

/-- The digits of a number without the zeros at its end. -/
def significantDigits (n : Nat) : Text :=
  match ((Text.ofNat n).reverse.dropWhile (· == '0')).reverse with
  | [] => ['0']
  | ds => ds

/-- The text of a double. -/
def text (style : DecimalStyle) (x : Binary64) : Text :=
  let sign : Text := if x.negative then "-" else ""
  let d := x.shortest
  let all := Text.ofNat d.digits
  let place := (all.length : Int) + d.exponent
  let body : Text :=
    if d.digits = 0 then (if style.pointZero then "0.0" else "0")
    else if style.positional (place - 1) then allPlaces style.pointZero (significantDigits d.digits) place
    else scientific (significantDigits d.digits) (place - 1)
  sign ++ body

end DecimalStyle

end MarkupLens
