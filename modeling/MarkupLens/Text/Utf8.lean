/-
UTF-8: the length of a text in bytes, its bytes, and the two ways of reading
bytes back. `decode?` accepts well-formed bytes only; `decodeLossy` puts a
replacement character for each maximal part that cannot be read.
-/
import MarkupLens.Text.Basic

namespace MarkupLens.Text

/-- The number of bytes the text takes in UTF-8. -/
def byteLength (s : Text) : Nat := s.foldr (fun c n => c.utf8Size + n) 0

@[simp] theorem byteLength_nil : byteLength [] = 0 := rfl

@[simp] theorem byteLength_cons (c : Char) (s : Text) : byteLength (c :: s) = c.utf8Size + byteLength s := rfl

@[simp] theorem byteLength_append (s t : Text) : byteLength (s ++ t) = byteLength s + byteLength t := by
  induction s with
  | nil => simp
  | cons c s ih => simp [ih, Nat.add_assoc]

/-- A text takes a byte or more unless it is empty. -/
theorem byteLength_pos {s : Text} (h : s ≠ []) : 0 < byteLength s := by
  cases s with
  | nil => exact absurd rfl h
  | cons c s => have := c.utf8Size_pos; simp; omega

/-- The bytes of a text. -/
def encode (s : Text) : List UInt8 := s.flatMap String.utf8EncodeChar

/-- What stands at the head of a list of bytes: a character, or a part that is none, and how many bytes
it takes. -/
inductive ByteStep where
  | char (c : Char) (rest : List UInt8)
  | broken (rest : List UInt8)

/-- The byte continues a character. -/
def isContinuation (b : UInt8) : Bool := 0x80 ≤ b && b ≤ 0xbf

/-- The low six bits of a continuation byte. -/
def continuationBits (b : UInt8) : Nat := b.toNat % 64

/-- The range in which the second byte after `lead` must lie: it keeps out overlong forms, surrogates
and code points beyond the last. -/
def secondRange (lead : UInt8) : UInt8 × UInt8 :=
  if lead == 0xe0 then (0xa0, 0xbf)
  else if lead == 0xed then (0x80, 0x9f)
  else if lead == 0xf0 then (0x90, 0xbf)
  else if lead == 0xf4 then (0x80, 0x8f)
  else (0x80, 0xbf)

/-- Whether `b` may stand after `lead`. -/
def isSecond (lead b : UInt8) : Bool := (secondRange lead).1 ≤ b && b ≤ (secondRange lead).2

/-- Reads one character off the bytes after `lead`; a broken part ends before the first byte that cannot
continue it. -/
def byteStep (lead : UInt8) (rest : List UInt8) : ByteStep :=
  if lead < 0x80 then .char (Char.ofNat lead.toNat) rest
  else if 0xc2 ≤ lead && lead ≤ 0xdf then
    match rest with
    | b :: r =>
      if isContinuation b then .char (Char.ofNat ((lead.toNat % 32) * 64 + continuationBits b)) r
      else .broken rest
    | [] => .broken []
  else if 0xe0 ≤ lead && lead ≤ 0xef then
    match rest with
    | b :: r =>
      if isSecond lead b then
        match r with
        | b₂ :: r₂ =>
          if isContinuation b₂ then
            .char (Char.ofNat ((lead.toNat % 16) * 4096 + continuationBits b * 64 + continuationBits b₂)) r₂
          else .broken r
        | [] => .broken []
      else .broken rest
    | [] => .broken []
  else if 0xf0 ≤ lead && lead ≤ 0xf4 then
    match rest with
    | b :: r =>
      if isSecond lead b then
        match r with
        | b₂ :: r₂ =>
          if isContinuation b₂ then
            match r₂ with
            | b₃ :: r₃ =>
              if isContinuation b₃ then
                .char (Char.ofNat ((lead.toNat % 8) * 262144 + continuationBits b * 4096 +
                  continuationBits b₂ * 64 + continuationBits b₃)) r₃
              else .broken r₂
            | [] => .broken []
          else .broken r
        | [] => .broken []
      else .broken rest
    | [] => .broken []
  else .broken rest

/-- What is left after a step. -/
def ByteStep.rest : ByteStep → List UInt8
  | .char _ r => r
  | .broken r => r

theorem length_rest_byteStep (lead : UInt8) (bytes : List UInt8) :
    (byteStep lead bytes).rest.length ≤ bytes.length := by
  unfold byteStep
  repeat' split
  all_goals simp only [ByteStep.rest, List.length_cons, List.length_nil]
  all_goals omega

/-- The text of well-formed bytes. -/
def decode? : List UInt8 → Option Text
  | [] => some []
  | lead :: bytes =>
    match _h : byteStep lead bytes with
    | .char c rest => (decode? rest).map (c :: ·)
    | .broken _ => none
termination_by bytes => bytes.length
decreasing_by
  have := length_rest_byteStep lead bytes
  rw [_h] at this
  simp only [ByteStep.rest] at this
  simp only [List.length_cons]; omega

/-- The text of any bytes: what is no character becomes U+FFFD. -/
def decodeLossy : List UInt8 → Text
  | [] => []
  | lead :: bytes =>
    match _h : byteStep lead bytes with
    | .char c rest => c :: decodeLossy rest
    | .broken rest => '\uFFFD' :: decodeLossy rest
termination_by bytes => bytes.length
decreasing_by
  all_goals
    have := length_rest_byteStep lead bytes
    rw [_h] at this
    simp only [ByteStep.rest] at this
    simp only [List.length_cons]; omega

end MarkupLens.Text
