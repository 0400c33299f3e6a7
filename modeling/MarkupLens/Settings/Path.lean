/-
Paths to settings: `log.level`, `render.default_template`, `list[0].name`. A
value that a path leads through becomes a table or an array if it is none.
-/
import MarkupLens.Settings.Value

namespace MarkupLens

/-- A step of a path. -/
inductive SettingStep where
  | key (name : Text)
  /-- an item of an array; a negative one is counted from the end -/
  | index (place : Int)
  deriving DecidableEq, Repr

/-- A path to a setting. -/
structure SettingPath where
  first : Text
  steps : List SettingStep
  deriving DecidableEq, Repr

namespace SettingPath

/-- A character of a name: an ASCII letter or digit, a space, an underscore or a hyphen. -/
def isNameChar (c : Char) : Bool := c.isAlphanum || c == ' ' || c == '_' || c == '-'

/-- Space round the number of an item. -/
def isSpace (c : Char) : Bool := c == ' ' || c == '\t'

/-- The number of an item between its brackets, and what follows. -/
def index? (s : Text) : Option (Int × Text) :=
  let s := s.dropWhile isSpace
  let (negative, s) := match s with
    | '-' :: r => (true, r)
    | _ => (false, s)
  let digits := s.takeWhile Char.isDigit
  let n := digits.foldl (fun n c => n * 10 + (c.toNat - '0'.toNat)) 0
  match (s.drop digits.length).dropWhile isSpace with
  | ']' :: rest =>
    if digits.isEmpty then none
    else if negative then (if n ≤ Nat.pow 2 63 then some (-n, rest) else none)
    else if n < Nat.pow 2 63 then some (n, rest)
    else none
  | _ => none

/-- The steps after the first name. As many as there are characters are enough. -/
def steps? : (limit : Nat) → Text → Option (List SettingStep)
  | _, [] => some []
  | 0, _ => none
  | limit + 1, '.' :: s =>
    let name := s.takeWhile isNameChar
    if name.isEmpty then none
    else (steps? limit (s.drop name.length)).map (.key name :: ·)
  | limit + 1, '[' :: s =>
    match index? s with
    | none => none
    | some (place, rest) => (steps? limit rest).map (.index place :: ·)
  | _, _ => none

/-- The path that a text writes. -/
def ofText? (s : Text) : Option SettingPath :=
  let first := s.takeWhile isNameChar
  if first.isEmpty then none
  else (steps? s.length (s.drop first.length)).map fun steps => ⟨first, steps⟩

end SettingPath

namespace SettingValue

/-- The place of an item in an array of so many. -/
def place (length : Nat) (i : Int) : Nat := if 0 ≤ i then i.toNat else length - i.natAbs

/-- The items with one changed; missing ones are made first. -/
def changeItem (n : Nat) (f : SettingValue → SettingValue) (vs : List SettingValue) : List SettingValue :=
  (vs ++ List.replicate (n + 1 - vs.length) SettingValue.nil).modify n f

/-- Sets what some steps lead to. -/
def setAt (v : SettingValue) : List SettingStep → SettingValue → SettingValue
  | [], _ => v
  | [.key name], target => .table (put name target.members v)
  | .key name :: steps, target =>
    .table (target.members.insert name (setAt v steps ((Keyed.lookup name target.members).getD .nil)))
  | .index i :: steps, target =>
    .array (changeItem (place target.items.length i) (setAt v steps) target.items)

end SettingValue

/-- Sets what a path leads to. -/
def SettingPath.set (p : SettingPath) (v root : SettingValue) : SettingValue :=
  v.setAt (.key p.first :: p.steps) root

end MarkupLens
