/-
Double-precision numbers as what they are: a significand of at most 53 bits
times a power of two. `roundRatio` gives the number nearest to a quotient,
a tie going to the even significand; products, quotients and decimals are
rounded through it, so no machine arithmetic is involved.
-/
namespace MarkupLens

/-- A finite double: `significand * 2 ^ exponent`, with a sign of its own, since there are two zeros. -/
structure Binary64 where
  negative : Bool
  significand : Nat
  exponent : Int
  deriving DecidableEq, Repr

namespace Binary64

/-- The least exponent of a double. -/
def minExponent : Int := -1074

/-- The greatest exponent of a double. -/
def maxExponent : Int := 971

/-- Zero without a minus sign. -/
def zero : Binary64 := ⟨false, 0, minExponent⟩

/-- Either zero. -/
def isZero (x : Binary64) : Bool := x.significand == 0

/-- The number with the sign set. -/
def withSign (negative : Bool) (x : Binary64) : Binary64 := { x with negative }

/-- The quotient rounded to a natural number, a tie going to the even one. -/
def roundDiv (num den : Nat) : Nat :=
  let q := num / den
  let r := num % den
  if 2 * r < den then q
  else if den < 2 * r then q + 1
  else if q % 2 = 0 then q else q + 1

/-- Rounding errs by half a unit at most. -/
theorem roundDiv_near (num : Nat) {den : Nat} (h : 0 < den) :
    2 * num ≤ 2 * (roundDiv num den * den) + den ∧ 2 * (roundDiv num den * den) ≤ 2 * num + den := by
  have hd : num = den * (num / den) + num % den := (Nat.div_add_mod num den).symm
  have hr := Nat.mod_lt num h
  have hm : num / den * den = den * (num / den) := Nat.mul_comm _ _
  have hm' : (num / den + 1) * den = den * (num / den) + den := by rw [Nat.add_mul, hm, Nat.one_mul]
  simp only [roundDiv]
  generalize num / den = q at *
  generalize num % den = r at *
  generalize den * q = p at *
  split
  · rw [hm]; omega
  · split
    · rw [hm']; omega
    · split
      · rw [hm]; omega
      · rw [hm']; omega

/-- `num / den` over `2 ^ exponent`, as a quotient of natural numbers. -/
def overPower (num den : Nat) (exponent : Int) : Nat × Nat :=
  if 0 ≤ exponent then (num, den * Nat.pow 2 exponent.toNat) else (num * Nat.pow 2 (-exponent).toNat, den)

/-- The exponent at which `num / den` has a significand of 53 bits, or the least one. -/
def exponentOf (num den : Nat) : Int :=
  let e : Int := (num.log2 : Int) - den.log2 - 52
  let (n, d) := overPower num den e
  max minExponent (if n < d * Nat.pow 2 52 then e - 1 else e)

/-- The double nearest to `num / den`, unless it is out of range. -/
def roundRatio (num den : Nat) : Option Binary64 :=
  if num = 0 then some zero
  else
    let e := exponentOf num den
    let (n, d) := overPower num den e
    let m := roundDiv n d
    let (m, e) := if m = Nat.pow 2 53 then (Nat.pow 2 52, e + 1) else (m, e)
    if e ≤ maxExponent then some ⟨false, m, e⟩ else none

/-- The double nearest to `num / den * 2 ^ exponent`. -/
def roundScaled (num den : Nat) (exponent : Int) : Option Binary64 :=
  let (n, d) := overPower num den (-exponent)
  roundRatio n d

/-- The double nearest to a natural number. -/
def ofNat? (n : Nat) : Option Binary64 := roundRatio n 1

/-- The product of the magnitudes. -/
def mul? (x y : Binary64) : Option Binary64 :=
  roundScaled (x.significand * y.significand) 1 (x.exponent + y.exponent)

/-- The quotient of the magnitudes, for a divisor that is not zero. -/
def div? (x y : Binary64) : Option Binary64 :=
  roundScaled x.significand y.significand (x.exponent - y.exponent)

/-- The double nearest to `digits * 10 ^ exponent`. Exponents so far out that the result is settled are
not worked out. -/
def ofDecimal? (digits : Nat) (exponent : Int) : Option Binary64 :=
  if digits = 0 then some zero
  else
    let magnitude := exponent + (Nat.log2 digits / 3 : Nat)
    if 400 < exponent then none
    else if magnitude < -400 then some zero
    else if 0 ≤ exponent then roundRatio (digits * Nat.pow 10 exponent.toNat) 1
    else roundRatio digits (Nat.pow 10 (-exponent).toNat)

end Binary64

end MarkupLens
