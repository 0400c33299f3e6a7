/-
The statements of a TOML text: headers and the keys below them. A reader
takes the text and gives what it read and what follows. Each step of a
reader takes a character or more, so as many steps as the text has
characters are enough.
-/
import MarkupLens.Toml.Table
import MarkupLens.Toml.Words

namespace MarkupLens.Toml

/-- Something that reads the head of a text. -/
abbrev Reads := StateT Text Option

/-- A header with the statements below it; at the start of a text it has no names. -/
structure Section where
  path : List Text
  /-- whether the header starts an item of a list of tables -/
  repeated : Bool
  statements : List (List Text × Toml)

/-- The character at the head, if there is one. -/
def peek : Reads (Option Char) := do return (← get).head?

/-- Takes a character that must come. -/
def expect (c : Char) : Reads Unit := do
  match expect? c (← get) with
  | some s => set s
  | none => failure

/-- Takes space within a line. -/
def skipSpace : Reads Unit := modify (·.dropWhile isSpace)

/-- A character of a bare key. -/
def isBareChar (c : Char) : Bool := c.isAlphanum || c == '-' || c == '_'

/-- One name of a key. -/
def name : Reads Text := do
  let s ← get
  match s with
  | '"' :: r | '\'' :: r =>
    match (if s.head? == some '"' then basic? r else literal? r) with
    | some (n, rest) =>
      set rest
      return n
    | none => failure
  | _ =>
    let n := s.takeWhile isBareChar
    if n.isEmpty then failure
    set (s.drop n.length)
    return n

/-- The names of a key, with dots between them and space round the dots. -/
def names : (steps : Nat) → Reads (List Text)
  | 0 => failure
  | steps + 1 => do
    skipSpace
    let first ← name
    skipSpace
    if (← peek) == some '.' then
      expect '.'
      return first :: (← names steps)
    else return [first]

/-- What follows a comment, which goes up to the end of the line. -/
def afterComment? : Text → Option Text
  | [] => some []
  | c :: s =>
    match newline? (c :: s) with
    | some _ => some (c :: s)
    | none => if isAllowed c then afterComment? s else none

/-- Takes space, a comment if there is one, and the end of the line or of the text. -/
def endLine : Reads Unit := do
  skipSpace
  if (← peek) == some '#' then
    match afterComment? (← get) with
    | some s => set s
    | none => failure
  let s ← get
  if !s.isEmpty then
    match newline? s with
    | some rest => set rest
    | none => failure

/-- Takes space, comments and line ends between the items of an array. -/
def skipLines : (steps : Nat) → Reads Unit
  | 0 => failure
  | steps + 1 => do
    skipSpace
    match ← peek with
    | some '\n' | some '\r' | some '#' =>
      endLine
      skipLines steps
    | _ => return ()

/-- Values nest at most so deep, less one. -/
def depthLimit : Nat := 80

mutual

/-- The value at the head of a text. -/
def value (depth : Nat) : (steps : Nat) → Reads Toml
  | 0 => failure
  | steps + 1 => do
    match ← peek with
    | some '[' =>
      if depthLimit ≤ depth + 1 then failure
      expect '['
      return .array (← items (depth + 1) steps)
    | some '\x7b' =>
      if depthLimit ≤ depth + 1 then failure
      expect '\x7b'
      skipSpace
      if (← peek) == some '\x7d' then
        expect '\x7d'
        return .table []
      match inlineTable? (← members (depth + 1) steps) with
      | some t => return t
      | none => failure
    | some '"' | some '\'' =>
      match string? (← get) with
      | some (t, rest) =>
        set rest
        return .string t
      | none => failure
    | _ =>
      let (w, rest) := takeWord (← get)
      match word? w with
      | some v =>
        set rest
        return v
      | none => failure

/-- The items of an array after its bracket or a comma, and the closing bracket. -/
def items (depth : Nat) : (steps : Nat) → Reads (List Toml)
  | 0 => failure
  | steps + 1 => do
    skipLines (steps + 1)
    if (← peek) == some ']' then
      expect ']'
      return []
    let v ← value depth steps
    skipLines (steps + 1)
    if (← peek) == some ',' then
      expect ','
      return v :: (← items depth steps)
    expect ']'
    return [v]

/-- The members of an inline table from one of them on, and the closing brace. -/
def members (depth : Nat) : (steps : Nat) → Reads (List (List Text × Toml))
  | 0 => failure
  | steps + 1 => do
    let path ← names steps
    expect '='
    skipSpace
    let v ← value depth steps
    skipSpace
    if (← peek) == some ',' then
      expect ','
      return (path, v) :: (← members depth steps)
    expect '\x7d'
    return [(path, v)]

end

/-- A statement: a key, an equals sign and a value. -/
def statement (steps : Nat) : Reads (List Text × Toml) := do
  let path ← names steps
  expect '='
  skipSpace
  let v ← value 0 steps
  endLine
  return (path, v)

/-- A header, and whether it is one of a list of tables. -/
def header (steps : Nat) : Reads (List Text × Bool) := do
  expect '['
  let repeated := (← peek) == some '['
  if repeated then expect '['
  let path ← names steps
  expect ']'
  if repeated then expect ']'
  endLine
  return (path, repeated)

/-- The sections of a text, the one at hand first. -/
def sections (current : Section) : (steps : Nat) → Reads (List Section)
  | 0 => failure
  | steps + 1 => do
    skipSpace
    match ← peek with
    | none => return [current]
    | some '\n' | some '\r' | some '#' =>
      endLine
      sections current steps
    | some '[' =>
      let (path, repeated) ← header steps
      return current :: (← sections ⟨path, repeated, []⟩ steps)
    | some _ =>
      let s ← statement steps
      sections { current with statements := current.statements ++ [s] } steps

/-- The sections of a whole text. -/
def sections? (s : Text) : Option (List Section) :=
  ((sections ⟨[], false, []⟩ (2 * s.length + 2)).run s).map (·.1)

end MarkupLens.Toml
