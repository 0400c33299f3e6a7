/-
Files as the program sees them: something that gives the bytes at a path or
says why it cannot. `Files.Tree` is a directory held in memory.
-/
import MarkupLens.Text.Utf8

namespace MarkupLens

/-- Why a file could not be read as text. -/
inductive FileFault where
  /-- the system refused, with its own text and number -/
  | system (text : Text) (code : Nat)
  /-- the bytes are not UTF-8 -/
  | notUtf8
  deriving DecidableEq, Repr

namespace FileFault

/-- There is nothing at the path. -/
def notFound : FileFault := .system "No such file or directory" 2

/-- Something on the way is no directory. -/
def notDirectory : FileFault := .system "Not a directory" 20

/-- The path leads to a directory. -/
def isDirectory : FileFault := .system "Is a directory" 21

/-- The wording of a fault. -/
def message : FileFault → Text
  | .system text code => text ++ " (os error " ++ Text.ofNat code ++ ")"
  | .notUtf8 => "stream did not contain valid UTF-8"

end FileFault

/-- What can be read: files by their path, and the standard input. -/
structure World (m : Type → Type) where
  read : (path : Text) → m (Except FileFault (List UInt8))
  /-- what is left of the standard input -/
  input : m (List UInt8)

/-- Bytes as text. -/
def textOfBytes (bytes : List UInt8) : Except FileFault Text :=
  match Text.decode? bytes with
  | some s => .ok s
  | none => .error .notUtf8

/-- The text of a file. -/
def World.readText {m : Type → Type} [Monad m] (w : World m) (path : Text) : m (Except FileFault Text) := do
  return (← w.read path).bind textOfBytes

namespace Files

/-- A directory held in memory: each path with the bytes of its file, or nothing for a directory. -/
abbrev Tree := List (List Text × Option (List UInt8))

/-- The names that a path is made of. -/
def components : Text → List Text
  | [] => [[]]
  | c :: s =>
    if c = '/' then [] :: components s
    else
      match components s with
      | [] => [[c]]
      | name :: names => (c :: name) :: names

/-- What stands at a place of the tree. -/
inductive Entry where
  | file (bytes : List UInt8)
  | directory

/-- What stands at the place of some names. A directory is there if something is in it. -/
def Tree.entry? (tree : Tree) (names : List Text) : Option Entry :=
  match tree.find? (·.1 == names) with
  | some (_, some bytes) => some (.file bytes)
  | some (_, none) => some .directory
  | none => if names.isEmpty || tree.any (fun e => names.isPrefixOf e.1) then some .directory else none

/-- Follows the names of a path from a directory; an empty name and `.` stay, `..` goes back. -/
def Tree.walk (tree : Tree) (place : List Text) : List Text → Except FileFault Entry
  | [] =>
    match tree.entry? place with
    | some e => .ok e
    | none => .error .notFound
  | name :: names =>
    match tree.entry? place with
    | none => .error .notFound
    | some (.file _) => .error .notDirectory
    | some .directory =>
      if name = [] ∨ name = ['.'] then tree.walk place names
      else if name = ['.', '.'] then tree.walk place.dropLast names
      else tree.walk (place ++ [name]) names

/-- The bytes at a path of the tree. -/
def Tree.read (tree : Tree) (path : Text) : Except FileFault (List UInt8) :=
  if path.isEmpty || path.head? == some '/' then .error .notFound
  else
    match tree.walk [] (components path) with
    | .error fault => .error fault
    | .ok (.file bytes) => .ok bytes
    | .ok .directory => .error .isDirectory

/-- The names at which a path of a file to be made leads. -/
def Tree.place (path : Text) : List Text := (components path).filter fun name => name ≠ [] && name ≠ ['.']

end Files

end MarkupLens
