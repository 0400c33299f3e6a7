/-
What a plain YAML scalar stands for: null, a truth value, a number, or just
its text. Whole numbers may be written in decimal, or after `0x`, `0o` and
`0b`; digits behind a leading zero are a text.
-/
import MarkupLens.Text.Basic
import MarkupLens.Decimal.Binary64

namespace MarkupLens.Yaml

/-- What a plain scalar stands for. -/
inductive Resolved where
  | null
  | bool (value : Bool)
  | integer (value : Int)
  /-- a whole number of more than 64 bits, but no more than 128 -/
  | wideInteger
  | double (value : Binary64)
  /-- an infinity, or not a number -/
  | notFinite
  | text
  deriving DecidableEq

/-- The value of a digit of a number whose digits go up to `f`. -/
def digitValue? (radix : Nat) (c : Char) : Option Nat :=
  let n :=
    if c.isDigit then c.toNat - '0'.toNat
    else if 'a' ≤ c && c ≤ 'f' then c.toNat - 'a'.toNat + 10
    else if 'A' ≤ c && c ≤ 'F' then c.toNat - 'A'.toNat + 10
    else radix
  if n < radix then some n else none

/-- The number that some digits write, the first ones being worth `n`. -/
def digits? (radix : Nat) (n : Nat) : Text → Option Nat
  | [] => some n
  | c :: s => (digitValue? radix c).bind fun d => digits? radix (n * radix + d) s

/-- The number that one or more digits write. -/
def natural? (radix : Nat) (s : Text) : Option Nat := if s.isEmpty then none else digits? radix 0 s

/-- Digits behind a leading zero, a sign apart. -/
def isZeroLed (s : Text) : Bool :=
  let digits := match s with
    | '-' :: r | '+' :: r => r
    | _ => s
  match digits with
  | '0' :: c :: r => (c :: r).all Char.isDigit
  | _ => false

/-- A number without sign, in any of the notations. -/
def magnitude? : Text → Option Nat
  | '0' :: 'x' :: s => natural? 16 s
  | '0' :: 'o' :: s => natural? 8 s
  | '0' :: 'b' :: s => natural? 2 s
  | s => if isZeroLed s then none else natural? 10 s

/-- A whole number with its sign. -/
def integer? : Text → Option (Bool × Nat)
  | '-' :: s => (magnitude? s).map fun n => (true, n)
  | '+' :: s => (magnitude? s).map fun n => (false, n)
  | s => (magnitude? s).map fun n => (false, n)

/-- What a whole number stands for, unless it is too wide. -/
def resolveInteger? (negative : Bool) (n : Nat) : Option Resolved :=
  if negative then
    if n ≤ Nat.pow 2 63 then some (.integer (-n)) else if n ≤ Nat.pow 2 127 then some .wideInteger else none
  else if n < Nat.pow 2 64 then some (.integer n)
  else if n < Nat.pow 2 128 then some .wideInteger
  else none

/-- The power of ten after the digits of a number: none at all, or an `e` with digits. -/
def power? : Text → Option Int
  | [] => some 0
  | c :: s =>
    if c = 'e' ∨ c = 'E' then
      match s with
      | '-' :: r => (natural? 10 r).map fun n => -(n : Int)
      | '+' :: r => (natural? 10 r).map fun n => (n : Int)
      | r => (natural? 10 r).map fun n => (n : Int)
    else none

/-- A decimal without sign: digits with or without a point among them, and a power of ten. -/
def decimal? (s : Text) : Option (Nat × Int) :=
  let whole := s.takeWhile Char.isDigit
  let rest := s.dropWhile Char.isDigit
  let fraction := match rest with
    | '.' :: r => r.takeWhile Char.isDigit
    | _ => []
  let after := match rest with
    | '.' :: r => r.dropWhile Char.isDigit
    | r => r
  match natural? 10 (whole ++ fraction), power? after with
  | some n, some e => some (n, e - fraction.length)
  | _, _ => none

/-- What a decimal stands for. One that is out of range is a text. -/
def resolveDecimal (negative : Bool) (s : Text) : Resolved :=
  match decimal? s with
  | none => .text
  | some (n, e) =>
    match Binary64.ofDecimal? n e with
    | some x => .double (x.withSign negative)
    | none => .text

/-- The spellings of an infinity without sign. -/
def infinities : List Text := [".inf", ".Inf", ".INF"]

/-- The spellings of what is not a number. -/
def notNumbers : List Text := [".nan", ".NaN", ".NAN"]

/-- What a scalar stands for that is no whole number. -/
def resolveFraction (s : Text) : Resolved :=
  if notNumbers.contains s then .notFinite
  else
    match s with
    | '-' :: r => if infinities.contains r then .notFinite else resolveDecimal true r
    | '+' :: r => if infinities.contains r then .notFinite else resolveDecimal false r
    | r => if infinities.contains r then .notFinite else resolveDecimal false r

/-- The spellings of null. -/
def nulls : List Text := ["", "null", "Null", "NULL", "~"]

/-- The spellings of the truth values. -/
def bool? (s : Text) : Option Bool :=
  if ["true", "True", "TRUE"].any (·.toList == s) then some true
  else if ["false", "False", "FALSE"].any (·.toList == s) then some false
  else none

/-- The whole number that a scalar stands for, if it does. -/
def resolveWhole? (s : Text) : Option Resolved := (integer? s).bind fun p => resolveInteger? p.1 p.2

/-- The number that a scalar stands for, or a text. -/
def resolveNumber (s : Text) : Resolved :=
  match resolveWhole? s with
  | some r => r
  | none => if isZeroLed s then .text else resolveFraction s

/-- What a plain scalar stands for. -/
def resolve (s : Text) : Resolved :=
  if nulls.contains s then .null
  else match bool? s with
    | some b => .bool b
    | none => resolveNumber s

end MarkupLens.Yaml
