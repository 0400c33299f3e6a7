/-
The lexemes of a JSON text: punctuation, strings, and the atoms `null`,
`true`, `false` and numbers.

A number without point and exponent is whole; one that does not fit 64 bits
is a double, and so is `-0`. The digits of a number are gathered in a
significand of 64 bits: once it is full, further digits before the point
only raise the exponent, and further digits after it are passed over. The
significand is then multiplied by a power of ten, or divided by one, in
double precision, in steps of `10 ^ 308` at most (`scaled?`).
-/
import MarkupLens.Text.Basic
import MarkupLens.Json.Value

namespace MarkupLens.Json

/-- A lexeme. -/
inductive Lexeme where
  | openBrace
  | closeBrace
  | openBracket
  | closeBracket
  | colon
  | comma
  | string (text : Text)
  | atom (value : Json)

/-! ## Numbers -/

/-- The value of a decimal digit. -/
def digitValue (c : Char) : Nat := c.toNat - '0'.toNat

/-- The greatest significand. -/
def significandLimit : Nat := Nat.pow 2 64 - 1

/-- A number read so far: its significand, the power of ten it is to be multiplied by, and what is not
read yet. -/
structure Scaled where
  significand : Nat
  exponent : Int
  rest : Text

/-- The digits before the point; a full significand takes no more of them. -/
def wholeDigits (significand : Nat) (full : Bool) (exponent : Int) : Text → Scaled
  | [] => ⟨significand, exponent, []⟩
  | c :: s =>
    if c.isDigit then
      let next := significand * 10 + digitValue c
      if full || significandLimit < next then wholeDigits significand true (exponent + 1) s
      else wholeDigits next false exponent s
    else ⟨significand, exponent, c :: s⟩

/-- The digits after the point; a full significand takes no more of them. -/
def fractionDigits (significand : Nat) (full : Bool) (exponent : Int) : Text → Scaled
  | [] => ⟨significand, exponent, []⟩
  | c :: s =>
    if c.isDigit then
      let next := significand * 10 + digitValue c
      if full || significandLimit < next then fractionDigits significand true exponent s
      else fractionDigits next false (exponent - 1) s
    else ⟨significand, exponent, c :: s⟩

/-- The double nearest to a power of ten. -/
def powerOfTen? (n : Nat) : Option Binary64 := Binary64.ofNat? (Nat.pow 10 n)

/-- A double times `10 ^ exponent`, or none if that is out of range. -/
def scaled? (x : Binary64) (exponent : Int) : Option Binary64 :=
  if exponent.natAbs ≤ 308 then
    (powerOfTen? exponent.natAbs).bind fun power => if 0 ≤ exponent then x.mul? power else x.div? power
  else if x.isZero then some x
  else if _h : 0 ≤ exponent then none
  else ((powerOfTen? 308).bind x.div?).bind fun y => scaled? y (exponent + 308)
termination_by exponent.natAbs
decreasing_by omega

/-- The greatest power of ten that a number may name. -/
def exponentLimit : Nat := Nat.pow 2 31 - 1

/-- A sum of exponents, kept within 32 bits. -/
def clampExponent (e : Int) : Int := max (-(Nat.pow 2 31 : Nat)) (min ((Nat.pow 2 31 : Nat) - 1) e)

/-- The number with that sign, unless it is out of range. -/
def double? (negative : Bool) (significand : Nat) (exponent : Int) : Option Number :=
  match Binary64.ofNat? significand with
  | none => none
  | some x => (scaled? x exponent).map fun y => .double (y.withSign negative)

/-- The exponent's sign, and what follows it. -/
def exponentSign : Text → Bool × Text
  | '-' :: s => (true, s)
  | '+' :: s => (false, s)
  | s => (false, s)

/-- The number with that significand, scaled by its own exponent and by the one after its `e`. -/
def withPower? (negative : Bool) (significand : Nat) (exponent : Int) (down : Bool) (power : Nat) : Option Number :=
  if exponentLimit < power then
    if significand ≠ 0 && !down then none else some (.double (Binary64.zero.withSign negative))
  else double? negative significand (clampExponent (if down then exponent - power else exponent + power))

/-- A number from its `e` on. -/
def withExponent? (negative : Bool) (significand : Nat) (exponent : Int) (s : Text) : Option (Number × Text) :=
  let (down, s) := exponentSign s
  let digits := s.takeWhile Char.isDigit
  if digits.isEmpty then none
  else
    (withPower? negative significand exponent down (digits.foldl (fun n c => n * 10 + digitValue c) 0)).map
      fun v => (v, s.dropWhile Char.isDigit)

/-- A number from the end of its digits on. -/
def afterDigits? (negative : Bool) (n : Scaled) : Option (Number × Text) :=
  match n.rest with
  | c :: s =>
    if c = 'e' ∨ c = 'E' then withExponent? negative n.significand n.exponent s
    else (double? negative n.significand n.exponent).map fun v => (v, n.rest)
  | [] => (double? negative n.significand n.exponent).map fun v => (v, [])

/-- A whole number, which is a double if it does not fit 64 bits or is a negative zero. -/
def whole? (negative : Bool) (significand : Nat) : Option Number :=
  if !negative then some (.integer significand)
  else if significand = 0 ∨ Nat.pow 2 63 < significand then double? true significand 0
  else some (.integer (-significand))

/-- A number from the end of its first digits on. -/
def afterWhole? (negative : Bool) (full : Bool) (n : Scaled) : Option (Number × Text) :=
  match n.rest with
  | '.' :: s =>
    match s with
    | d :: _ =>
      if d.isDigit then afterDigits? negative (fractionDigits n.significand false n.exponent s) else none
    | [] => none
  | c :: s =>
    if c = 'e' ∨ c = 'E' then withExponent? negative n.significand n.exponent s
    else if full then (double? negative n.significand n.exponent).map fun v => (v, n.rest)
    else (whole? negative n.significand).map fun v => (v, n.rest)
  | [] =>
    if full then (double? negative n.significand n.exponent).map fun v => (v, [])
    else (whole? negative n.significand).map fun v => (v, [])

/-- A number without its sign. A zero at the front stands alone. -/
def unsigned? (negative : Bool) : Text → Option (Number × Text)
  | '0' :: d :: s => if d.isDigit then none else afterWhole? negative false ⟨0, 0, d :: s⟩
  | '0' :: [] => afterWhole? negative false ⟨0, 0, []⟩
  | d :: s =>
    if d.isDigit then
      let n := wholeDigits 0 false 0 (d :: s)
      afterWhole? negative (n.exponent != 0) n
    else none
  | [] => none

/-- The number at the head of a text, and what follows. -/
def number? : Text → Option (Number × Text)
  | '-' :: s => unsigned? true s
  | s => unsigned? false s

/-! ## Strings -/

/-- The value of a hexadecimal digit. -/
def hexValue? (c : Char) : Option Nat :=
  if c.isDigit then some (digitValue c)
  else if 'a' ≤ c && c ≤ 'f' then some (c.toNat - 'a'.toNat + 10)
  else if 'A' ≤ c && c ≤ 'F' then some (c.toNat - 'A'.toNat + 10)
  else none

/-- The number of four hexadecimal digits. -/
def hexFour? (a b c d : Char) : Option Nat := do
  let a ← hexValue? a
  let b ← hexValue? b
  let c ← hexValue? c
  let d ← hexValue? d
  return ((a * 16 + b) * 16 + c) * 16 + d

/-- The character of an escape of one letter. -/
def letterEscape? (c : Char) : Option Char :=
  if c = '"' then some '"'
  else if c = '\\' then some '\\'
  else if c = '/' then some '/'
  else if c = 'b' then some '\x08'
  else if c = 'f' then some '\x0c'
  else if c = 'n' then some '\n'
  else if c = 'r' then some '\r'
  else if c = 't' then some '\t'
  else none

/-- The first half of a pair. -/
def isHighHalf (n : Nat) : Bool := 0xd800 ≤ n && n ≤ 0xdbff

/-- The second half of a pair. -/
def isLowHalf (n : Nat) : Bool := 0xdc00 ≤ n && n ≤ 0xdfff

/-- The rest of a string after its opening quote, and what follows. A pair of halves is one character; a
half on its own is refused. -/
def stringBody? : Text → Option (Text × Text)
  | [] => none
  | '"' :: s => some ([], s)
  | '\\' :: 'u' :: a :: b :: c :: d :: s =>
    match hexFour? a b c d with
    | none => none
    | some n =>
      if isHighHalf n then
        match s with
        | '\\' :: 'u' :: a' :: b' :: c' :: d' :: s =>
          match hexFour? a' b' c' d' with
          | none => none
          | some m =>
            if isLowHalf m then
              (stringBody? s).map fun p =>
                (Char.ofNat (0x10000 + (n - 0xd800) * 0x400 + (m - 0xdc00)) :: p.1, p.2)
            else none
        | _ => none
      else if isLowHalf n then none
      else (stringBody? s).map fun p => (Char.ofNat n :: p.1, p.2)
  | '\\' :: e :: s =>
    match letterEscape? e with
    | none => none
    | some c => (stringBody? s).map fun p => (c :: p.1, p.2)
  | c :: s => if c = '\\' ∨ c.toNat < 0x20 then none else (stringBody? s).map fun p => (c :: p.1, p.2)

/-! ## Lexemes -/

/-- The space between lexemes. -/
def isSpace (c : Char) : Bool := c == ' ' || c == '\t' || c == '\n' || c == '\r'

/-- A word, if the text starts with it. -/
def word? (word : Text) (value : Json) (s : Text) : Option (Lexeme × Text) :=
  (Text.after? word s).map fun rest => (.atom value, rest)

/-- The lexeme that starts with the character `c`, and what follows. -/
def lexeme? (c : Char) (s : Text) : Option (Lexeme × Text) :=
  if c = '\x7b' then some (.openBrace, s)
  else if c = '\x7d' then some (.closeBrace, s)
  else if c = '[' then some (.openBracket, s)
  else if c = ']' then some (.closeBracket, s)
  else if c = ':' then some (.colon, s)
  else if c = ',' then some (.comma, s)
  else if c = '"' then (stringBody? s).map fun p => (.string p.1, p.2)
  else if c = 'n' then word? "ull" .null s
  else if c = 't' then word? "rue" (.bool true) s
  else if c = 'f' then word? "alse" (.bool false) s
  else (number? (c :: s)).map fun p => (.atom (.number p.1), p.2)

/-! ## A lexeme takes a character or more -/

theorem length_dropWhile_le (p : Char → Bool) (s : Text) : (s.dropWhile p).length ≤ s.length :=
  (List.dropWhile_sublist p).length_le

theorem wholeDigits_rest (n : Nat) (full : Bool) (e : Int) (s : Text) :
    (wholeDigits n full e s).rest.length ≤ s.length := by
  induction s generalizing n full e with
  | nil => simp [wholeDigits]
  | cons c s ih =>
    simp only [wholeDigits]
    split
    · split
      · exact Nat.le_succ_of_le (ih ..)
      · exact Nat.le_succ_of_le (ih ..)
    · exact Nat.le_refl _

theorem fractionDigits_rest (n : Nat) (full : Bool) (e : Int) (s : Text) :
    (fractionDigits n full e s).rest.length ≤ s.length := by
  induction s generalizing n full e with
  | nil => simp [fractionDigits]
  | cons c s ih =>
    simp only [fractionDigits]
    split
    · split
      · exact Nat.le_succ_of_le (ih ..)
      · exact Nat.le_succ_of_le (ih ..)
    · exact Nat.le_refl _

theorem exponentSign_rest (s : Text) : (exponentSign s).2.length ≤ s.length := by
  unfold exponentSign
  split <;> simp

theorem withExponent?_rest {negative : Bool} {n : Nat} {e : Int} {s rest : Text} {v : Number}
    (h : withExponent? negative n e s = some (v, rest)) : rest.length ≤ s.length := by
  unfold withExponent? at h
  split at h
  rename_i down t ht
  have h1 := exponentSign_rest s
  rw [ht] at h1
  dsimp only at h
  split at h
  · cases h
  · simp only [Option.map_eq_some_iff, Prod.mk.injEq] at h
    obtain ⟨_, _, _, rfl⟩ := h
    exact Nat.le_trans (length_dropWhile_le _ _) h1

theorem afterDigits?_rest {negative : Bool} {n : Scaled} {rest : Text} {v : Number}
    (h : afterDigits? negative n = some (v, rest)) : rest.length ≤ n.rest.length := by
  unfold afterDigits? at h
  split at h
  · rename_i c s hs
    split at h
    · have := withExponent?_rest h
      rw [hs]; simp only [List.length_cons]; omega
    · simp only [Option.map_eq_some_iff, Prod.mk.injEq] at h
      obtain ⟨_, _, _, rfl⟩ := h
      exact Nat.le_refl _
  · simp only [Option.map_eq_some_iff, Prod.mk.injEq] at h
    obtain ⟨_, _, _, rfl⟩ := h
    simp

theorem afterWhole?_rest {negative full : Bool} {n : Scaled} {rest : Text} {v : Number}
    (h : afterWhole? negative full n = some (v, rest)) : rest.length ≤ n.rest.length := by
  unfold afterWhole? at h
  split at h
  · rename_i s hs
    rw [hs]
    split at h
    · split at h
      · exact Nat.le_succ_of_le (Nat.le_trans (afterDigits?_rest h) (fractionDigits_rest ..))
      · cases h
    · cases h
  · rename_i hs
    split at h
    · have := withExponent?_rest h
      rw [hs]; simp only [List.length_cons]; omega
    · split at h <;>
      · simp only [Option.map_eq_some_iff, Prod.mk.injEq] at h
        obtain ⟨_, _, _, rfl⟩ := h
        exact Nat.le_refl _
  · split at h <;>
    · simp only [Option.map_eq_some_iff, Prod.mk.injEq] at h
      obtain ⟨_, _, _, rfl⟩ := h
      simp

theorem unsigned?_rest {negative : Bool} {s rest : Text} {v : Number}
    (h : unsigned? negative s = some (v, rest)) : rest.length < s.length := by
  unfold unsigned? at h
  split at h
  · split at h
    · cases h
    · have := afterWhole?_rest h
      simp only [List.length_cons] at this ⊢; omega
  · have := afterWhole?_rest h
    simp only [List.length_nil, List.length_cons] at this ⊢; omega
  · rename_i d s _ _
    split at h
    · rename_i hd
      have h1 := afterWhole?_rest h
      have h2 : (wholeDigits 0 false 0 (d :: s)).rest.length ≤ s.length := by
        simp only [wholeDigits, hd, if_true]
        split <;> exact wholeDigits_rest ..
      simp only [List.length_cons]; omega
    · cases h
  · cases h

theorem number?_rest {s rest : Text} {v : Number} (h : number? s = some (v, rest)) :
    rest.length < s.length := by
  unfold number? at h
  split at h
  · exact Nat.lt_succ_of_lt (unsigned?_rest h)
  · exact unsigned?_rest h

theorem stringBody?_rest {s a rest : Text} (h : stringBody? s = some (a, rest)) : rest.length < s.length := by
  induction hn : s.length using Nat.strongRecOn generalizing s a with
  | _ n ih =>
    unfold stringBody? at h
    repeat' split at h
    all_goals first
      | cases h; done
      | (simp only [Option.some.injEq, Prod.mk.injEq] at h
         obtain ⟨-, rfl⟩ := h
         simp only [List.length_cons] at hn; omega)
      | (simp only [Option.map_eq_some_iff, Prod.mk.injEq] at h
         obtain ⟨⟨a', b'⟩, h, _, rfl⟩ := h
         simp only [List.length_cons] at hn
         have := ih _ (by omega) h rfl
         omega)

theorem word?_rest {w s rest : Text} {v : Json} {l : Lexeme} (h : word? w v s = some (l, rest)) :
    rest.length ≤ s.length := by
  simp only [word?, Option.map_eq_some_iff, Prod.mk.injEq] at h
  obtain ⟨_, h, _, rfl⟩ := h
  rw [Text.after?_eq_some.1 h]
  simp

/-- What follows a lexeme is no longer than what follows its first character. -/
theorem lexeme?_rest {c : Char} {s rest : Text} {l : Lexeme} (h : lexeme? c s = some (l, rest)) :
    rest.length ≤ s.length := by
  unfold lexeme? at h
  repeat' split at h
  all_goals first
    | (simp only [Option.some.injEq, Prod.mk.injEq] at h
       obtain ⟨-, rfl⟩ := h
       exact Nat.le_refl _)
    | exact word?_rest h
    | skip
  · simp only [Option.map_eq_some_iff, Prod.mk.injEq] at h
    obtain ⟨⟨_, _⟩, h, _, rfl⟩ := h
    exact Nat.le_of_lt (stringBody?_rest h)
  · simp only [Option.map_eq_some_iff, Prod.mk.injEq] at h
    obtain ⟨⟨_, _⟩, h, _, rfl⟩ := h
    exact Nat.le_of_lt_succ (number?_rest h)

end MarkupLens.Json
