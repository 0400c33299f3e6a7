/-
Text as the list of its characters, and the few operations every other
module reads text with: taking a known start off, looking for one text in
another, comparing names without regard to ASCII case, joining.

A text is a list because every rule of this library is a recursion on it;
strings appear only where the program meets its surroundings.
-/
namespace MarkupLens

/-- A text is the list of its characters. -/
abbrev Text := List Char

/-- A string literal stands for its characters. -/
instance : Coe String Text := ⟨String.toList⟩

namespace Text

/-- What follows `start` in a text that starts with it. -/
def after? : (start : Text) → Text → Option Text
  | [], s => some s
  | _ :: _, [] => none
  | c :: start, d :: s => if c = d then after? start s else none

theorem after?_eq_some {start s rest : Text} : after? start s = some rest ↔ s = start ++ rest := by
  induction start generalizing s with
  | nil => simp [after?]
  | cons c start ih =>
    cases s with
    | nil => simp [after?]
    | cons d s =>
      by_cases h : c = d
      · subst h; simp [after?, ih]
      · simp [after?, h]; intro he; exact absurd he.symm h

/-- The text without a leading `start`, or the text itself. -/
def dropStart (start s : Text) : Text := (after? start s).getD s

/-- What stands before `ending` in a text that ends with it. -/
def before? (ending s : Text) : Option Text := (after? ending.reverse s.reverse).map List.reverse

theorem before?_eq_some {ending s rest : Text} : before? ending s = some rest ↔ s = rest ++ ending := by
  simp only [before?, Option.map_eq_some_iff, after?_eq_some]
  constructor
  · rintro ⟨r, h, rfl⟩
    have := congrArg List.reverse h
    simpa using this
  · rintro rfl
    exact ⟨rest.reverse, by simp, by simp⟩

/-- The text without a trailing `ending`, or the text itself. -/
def dropEnding (ending s : Text) : Text := (before? ending s).getD s

/-- Whether `part` occurs somewhere in the text. -/
def holds (part : Text) : Text → Bool
  | [] => part.isEmpty
  | c :: s => part.isPrefixOf (c :: s) || holds part s

/-- Equal when the letters `A` to `Z` count as `a` to `z`. -/
def sameName (a b : Text) : Bool := a.map Char.toLower == b.map Char.toLower

theorem sameName_refl (a : Text) : sameName a a = true := by simp [sameName]

theorem sameName_comm (a b : Text) : sameName a b = sameName b a := by
  simp only [sameName]; exact Bool.beq_comm

/-- The parts with `sep` between any two neighbours. -/
def joinWith (sep : Text) : List Text → Text
  | [] => []
  | [s] => s
  | s :: rest => s ++ sep ++ joinWith sep rest

/-- The decimal digits of a natural number. -/
def ofNat (n : Nat) : Text := Nat.toDigits 10 n

/-- The decimal digits of an integer, after a minus sign if it is negative. -/
def ofInt : Int → Text
  | .ofNat n => ofNat n
  | .negSucc n => '-' :: ofNat (n + 1)

/-- The text with the first `limit` occurrences of `old`, found from the left, written as `new`.
`skip` characters still belong to an occurrence already written. -/
def replaceFrom (old new : Text) : (skip limit : Nat) → Text → Text
  | _, _, [] => []
  | skip + 1, limit, _ :: s => replaceFrom old new skip limit s
  | 0, 0, c :: s => c :: replaceFrom old new 0 0 s
  | 0, limit + 1, c :: s =>
    if old.isPrefixOf (c :: s) then new ++ replaceFrom old new (old.length - 1) limit s
    else c :: replaceFrom old new 0 (limit + 1) s

end Text

end MarkupLens
