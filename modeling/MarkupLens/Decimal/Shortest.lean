/-
The shortest decimal that reads back as a given double. The reals nearest to
a double form an interval, its ends included when the significand is even;
of the decimals in it those with the fewest digits count, of these the one
nearest to the double, and of two equally near the even one.

The search tries one digit, two digits and so on; on each grid only the two
neighbours of the double can be the nearest, so only these are tested.
-/
import MarkupLens.Decimal.Binary64

namespace MarkupLens

/-- A decimal: `digits * 10 ^ exponent`. -/
structure ShortDecimal where
  digits : Nat
  exponent : Int
  deriving DecidableEq, Repr

namespace Binary64

/-- The interval of the reals that round to a double, and the double itself, all over one denominator. -/
structure Basin where
  low : Nat
  value : Nat
  high : Nat
  den : Nat
  closed : Bool

/-- The basin of a double that is not zero. Below a power of two the numbers lie twice as dense. -/
def basin (x : Binary64) : Basin :=
  let narrow := x.significand = Nat.pow 2 52 ∧ minExponent < x.exponent
  let low := if narrow then 4 * x.significand - 1 else 4 * x.significand - 2
  let scale := Nat.pow 2 x.exponent.toNat
  { low := low * scale
    value := 4 * x.significand * scale
    high := (4 * x.significand + 2) * scale
    den := 4 * Nat.pow 2 (-x.exponent).toNat
    closed := x.significand % 2 == 0 }

/-- Whether `num / den` lies in the basin. -/
def Basin.holds (b : Basin) (num den : Nat) : Bool :=
  if b.closed then b.low * den ≤ num * b.den && num * b.den ≤ b.high * den
  else b.low * den < num * b.den && num * b.den < b.high * den

/-- The number of digits before the point, for a value of one or more; otherwise minus the number of zeros
after it. The search starts at an estimate and moves up. -/
def decimalPlace (num den : Nat) : (fuel : Nat) → (start : Int) → Int
  | 0, k => k
  | fuel + 1, k =>
    let reached := if 0 ≤ k then num < den * Nat.pow 10 k.toNat else num * Nat.pow 10 (-k).toNat < den
    if reached then k else decimalPlace num den fuel (k + 1)

/-- The place at which the search starts: never too high, and too low by a few at most. -/
def placeEstimate (num den : Nat) : Int :=
  let bits : Int := (num.log2 : Int) - den.log2 - 1
  bits * 30103 / 100000 - 1

/-- `d * 10 ^ e` as a quotient. -/
def tenth (d : Nat) (e : Int) : Nat × Nat :=
  if 0 ≤ e then (d * Nat.pow 10 e.toNat, 1) else (d, Nat.pow 10 (-e).toNat)

/-- The nearer of the two neighbours of the value on the grid of `10 ^ e` that lie in the basin. -/
def onGrid? (b : Basin) (e : Int) : Option ShortDecimal :=
  let (n, d) := if 0 ≤ e then (b.value, b.den * Nat.pow 10 e.toNat) else (b.value * Nat.pow 10 (-e).toNat, b.den)
  let q := n / d
  let r := n % d
  let holds (c : Nat) : Bool := let (cn, cd) := tenth c e; b.holds cn cd
  match holds q, holds (q + 1) with
  | true, true => some ⟨if 2 * r < d then q else if d < 2 * r then q + 1 else if q % 2 = 0 then q else q + 1, e⟩
  | true, false => some ⟨q, e⟩
  | false, true => some ⟨q + 1, e⟩
  | false, false => none

/-- Tries grids from coarse to fine. -/
def searchGrids (b : Basin) : (fuel : Nat) → (e : Int) → ShortDecimal
  | 0, e => (onGrid? b e).getD ⟨0, e⟩
  | fuel + 1, e => match onGrid? b e with
    | some d => d
    | none => searchGrids b fuel (e - 1)

/-- The shortest decimal that reads back as the double; its sign apart. -/
def shortest (x : Binary64) : ShortDecimal :=
  if x.significand = 0 then ⟨0, 0⟩
  else
    let b := x.basin
    let place := decimalPlace b.value b.den 8 (placeEstimate b.value b.den)
    searchGrids b 17 (place - 1)

end Binary64

end MarkupLens
