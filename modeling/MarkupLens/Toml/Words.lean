/-
TOML values written as one word: truth values, numbers, and points in time.
-/
import MarkupLens.Toml.Strings
import MarkupLens.Toml.Value

namespace MarkupLens.Toml

/-- A character of a word. -/
def isWordChar (c : Char) : Bool := c.isAlphanum || "+-_.:".toList.contains c

/-! ## Numbers -/

/-- Digits of a radix without the underscores among them, each of which stands between two digits. -/
def grouped? (isDigit : Char → Bool) : Text → Option Text
  | [] => none
  | c :: s =>
    if isDigit c then
      match s with
      | [] => some [c]
      | '_' :: r => (grouped? isDigit r).map (c :: ·)
      | r => (grouped? isDigit r).map (c :: ·)
    else none

/-- The number that digits write. -/
def digitsValue (radix : Nat) (digits : Text) : Nat :=
  digits.foldl (fun n c => n * radix + (hexValue? c).getD 0) 0

/-- A whole number after `0x`, `0o` or `0b`. -/
def prefixed? : Text → Option Nat
  | '0' :: 'x' :: s => (grouped? (fun c => (hexValue? c).isSome) s).map (digitsValue 16)
  | '0' :: 'o' :: s => (grouped? (fun c => '0' ≤ c && c ≤ '7') s).map (digitsValue 8)
  | '0' :: 'b' :: s => (grouped? (fun c => c == '0' || c == '1') s).map (digitsValue 2)
  | _ => none

/-- A sign, and what it stands before. -/
def signed : Text → Bool × Text
  | '-' :: s => (true, s)
  | '+' :: s => (false, s)
  | s => (false, s)

/-- The digits of a whole number, which have no zero at their front. -/
def wholeDigits? (s : Text) : Option Text :=
  match grouped? Char.isDigit s with
  | some ('0' :: _ :: _) => none
  | digits => digits

/-- A whole number of 64 bits. -/
def integer? (s : Text) : Option Int :=
  match prefixed? s with
  | some n => if n < Nat.pow 2 63 then some n else none
  | none =>
    let (negative, rest) := signed s
    match (wholeDigits? rest).map (digitsValue 10) with
    | none => none
    | some n =>
      if negative then (if n ≤ Nat.pow 2 63 then some (-n) else none)
      else if n < Nat.pow 2 63 then some n
      else none

/-- The power of ten after an `e`. -/
def power? (s : Text) : Option Int :=
  let (negative, rest) := signed s
  (grouped? Char.isDigit rest).map fun ds =>
    let n := digitsValue 10 ds
    if negative then -(n : Int) else n

/-- A decimal as its digits and a power of ten; it has a point with digits after it, or an `e`. -/
def decimal? (s : Text) : Option (Nat × Int) :=
  let isE (c : Char) : Bool := c == 'e' || c == 'E'
  let whole := s.takeWhile fun c => !isE c && c != '.'
  let rest := s.drop whole.length
  match wholeDigits? whole, rest with
  | some ds, '.' :: r =>
    let fraction := r.takeWhile (!isE ·)
    match grouped? Char.isDigit fraction, r.drop fraction.length with
    | some fs, [] => some (digitsValue 10 (ds ++ fs), -(fs.length : Int))
    | some fs, _ :: p => (power? p).map fun e => (digitsValue 10 (ds ++ fs), e - fs.length)
    | none, _ => none
  | some ds, _ :: p => (power? p).map fun e => (digitsValue 10 ds, e)
  | _, _ => none

/-- A float. One that is too great is refused, unless it is negative. -/
def float? (s : Text) : Option TomlFloat :=
  let (negative, rest) := signed s
  if rest = "inf".toList then some (.infinite negative)
  else if rest = "nan".toList then some .nan
  else
    match decimal? rest with
    | none => none
    | some (n, e) =>
      match Binary64.ofDecimal? n e with
      | some x => some (.finite (x.withSign negative))
      | none => if negative then some (.infinite true) else none

/-! ## Points in time -/

/-- The number that exactly so many digits at the head of a text write, and what follows. -/
def fixedDigits? (count : Nat) (s : Text) : Option (Nat × Text) :=
  let ds := s.take count
  if ds.length = count ∧ ds.all Char.isDigit = true then some (digitsValue 10 ds, s.drop count) else none

/-- What follows a character that must come. -/
def expect? (c : Char) : Text → Option Text
  | d :: s => if c = d then some s else none
  | [] => none

/-- Whether a year has a 29 February. -/
def isLeap (year : Nat) : Bool := year % 4 == 0 && (year % 100 != 0 || year % 400 == 0)

/-- The days of a month. -/
def daysIn (year month : Nat) : Nat :=
  if month = 2 then (if isLeap year then 29 else 28)
  else if [4, 6, 9, 11].contains month then 30
  else 31

/-- A number with as many digits as `width`, or more. -/
def padded (width n : Nat) : Text := List.replicate (width - (Text.ofNat n).length) '0' ++ Text.ofNat n

/-- A date at the head of a text, as it is shown, and what follows. -/
def date? (s : Text) : Option (Text × Text) := do
  let (year, s) ← fixedDigits? 4 s
  let s ← expect? '-' s
  let (month, s) ← fixedDigits? 2 s
  let s ← expect? '-' s
  let (day, s) ← fixedDigits? 2 s
  if 1 ≤ month ∧ month ≤ 12 ∧ 1 ≤ day ∧ day ≤ daysIn year month then
    some (padded 4 year ++ '-' :: padded 2 month ++ '-' :: padded 2 day, s)
  else none

/-- The fraction of a second: nine digits count, and zeros at the end do not show. -/
def fraction? : Text → Option (Text × Text)
  | '.' :: s =>
    let ds := s.takeWhile Char.isDigit
    if ds.isEmpty then none
    else
      let shown := ((ds.take 9).reverse.dropWhile (· == '0')).reverse
      some (if shown.isEmpty then [] else '.' :: shown, s.drop ds.length)
  | s => some ([], s)

/-- A time of day at the head of a text, as it is shown, and what follows. -/
def time? (s : Text) : Option (Text × Text) := do
  let (hour, s) ← fixedDigits? 2 s
  let s ← expect? ':' s
  let (minute, s) ← fixedDigits? 2 s
  let s ← expect? ':' s
  let (second, s) ← fixedDigits? 2 s
  let (fraction, s) ← fraction? s
  if hour ≤ 23 ∧ minute ≤ 59 ∧ second ≤ 60 then
    some (padded 2 hour ++ ':' :: padded 2 minute ++ ':' :: padded 2 second ++ fraction, s)
  else none

/-- The offset of a zone, as it is shown; none at all is a positive one. -/
def offset? : Text → Option Text
  | [] => some []
  | c :: s =>
    if c = 'Z' ∨ c = 'z' then (if s.isEmpty then some ['Z'] else none)
    else if c = '+' ∨ c = '-' then do
      let (hours, s) ← fixedDigits? 2 s
      let s ← expect? ':' s
      let (minutes, s) ← fixedDigits? 2 s
      let sign := if hours = 0 ∧ minutes = 0 then '+' else c
      if s.isEmpty ∧ hours ≤ 23 ∧ minutes ≤ 59 then some (sign :: padded 2 hours ++ ':' :: padded 2 minutes)
      else none
    else none

/-- A time of day with its zone, as it is shown. -/
def zonedTime? (s : Text) : Option Text := do
  let (time, s) ← time? s
  return time ++ (← offset? s)

/-- A point in time, as it is shown: a date, a time of day, or both. -/
def moment? (s : Text) : Option Text :=
  match date? s with
  | some (date, []) => some date
  | some (date, c :: s) =>
    if c = 'T' ∨ c = 't' ∨ c = ' ' then (zonedTime? s).map fun time => date ++ 'T' :: time else none
  | none =>
    match time? s with
    | some (time, []) => some time
    | _ => none

/-! ## Words -/

/-- The value that a word stands for. -/
def word? (s : Text) : Option Toml :=
  if s = "true".toList then some (.boolean true)
  else if s = "false".toList then some (.boolean false)
  else
    match moment? s with
    | some t => some (.moment t)
    | none =>
      match integer? s with
      | some n => some (.integer n)
      | none => (float? s).map .float

/-- Whether a time of day follows a date after a space. -/
def timeFollows : Text → Bool
  | ' ' :: a :: b :: ':' :: _ => a.isDigit && b.isDigit
  | _ => false

/-- The word at the head of a text, and what follows. A date and a time of day may have a space between
them. -/
def takeWord (s : Text) : Text × Text :=
  let word := s.takeWhile isWordChar
  let rest := s.drop word.length
  if timeFollows rest && ((date? word).map (·.2)) == some [] then
    let time := (rest.drop 1).takeWhile isWordChar
    (word ++ ' ' :: time, rest.drop (1 + time.length))
  else (word, rest)

end MarkupLens.Toml
