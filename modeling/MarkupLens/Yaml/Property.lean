/-
What stands in front of a node or of a document: anchors, tags and
directives. A tag is the list of its bytes, since a `%` and two digits may
write any byte. What begins with an exclamation mark is a handle and the rest
of the tag, or a tag of its own.
-/
import MarkupLens.Text.Utf8
import MarkupLens.Yaml.Block
import MarkupLens.Yaml.Scalar

namespace MarkupLens.Yaml

/-- The bytes of a tag. -/
abbrev TagBytes := List UInt8

/-- The name at the head of a text, if there is one. -/
def word? (s : Text) : Option (Text × Text) :=
  let w := s.takeWhile isWordChar
  if w.isEmpty then none else some (w, s.drop w.length)

/-- The name of an anchor after its mark. -/
def anchorName? (s : Text) : Option (Text × Text) := do
  let (name, rest) ← word? s
  let ended := gapNext rest || rest.head?.any fun c => "?:,]\x7d%@".toList.contains c || c.toNat == 0x60
  if ended then some (name, rest) else none

/-! ## Tags -/

/-- A character of a tag. Some may only stand in a tag that is written out. -/
def isTagChar (writtenOut : Bool) (c : Char) : Bool :=
  isWordChar c || ";/?:@&=+$.!~*'()".toList.contains c || (writtenOut && (c == ',' || c == '[' || c == ']'))

/-- How many bytes follow the first one of a character. -/
def following? (n : Nat) : Option Nat :=
  if n < 0x80 then some 0
  else if 0xc0 ≤ n && n < 0xe0 then some 1
  else if 0xe0 ≤ n && n < 0xf0 then some 2
  else if 0xf0 ≤ n && n < 0xf8 then some 3
  else none

/-- The bytes at the head of a text, `due` of which must still come as parts of a character. -/
def tagBytes? (writtenOut : Bool) : (due : Nat) → Text → Option (TagBytes × Text)
  | due, '%' :: a :: b :: s => do
    let n ← natural? 16 [a, b]
    let due ← match due with
      | 0 => following? n
      | due + 1 => if 0x80 ≤ n && n < 0xc0 then some due else none
    let (bytes, rest) ← tagBytes? writtenOut due s
    return (UInt8.ofNat n :: bytes, rest)
  | _ + 1, _ => none
  | 0, [] => some ([], [])
  | 0, c :: s =>
    if c == '%' then none
    else if isTagChar writtenOut c then do
      let (bytes, rest) ← tagBytes? writtenOut 0 s
      return (UInt8.ofNat c.toNat :: bytes, rest)
    else some ([], c :: s)

/-- The bytes at the head of a text, of which there must be some. They end at a zero. -/
def someTagBytes? (writtenOut : Bool) (s : Text) : Option (TagBytes × Text) := do
  let (bytes, rest) ← tagBytes? writtenOut 0 s
  if bytes.isEmpty then none else some (bytes.takeWhile (· != 0), rest)

/-- The tag of an exclamation mark alone. -/
def bareTag : TagBytes := Text.encode "!"

/-- A tag after its exclamation mark: its handle, which is empty if there is none, and the rest. -/
def tagParts? (s : Text) : Option ((Text × TagBytes) × Text) :=
  match s with
  | '<' :: s => do
    match ← someTagBytes? true s with
    | (bytes, '>' :: rest) => some (([], bytes), rest)
    | _ => none
  | s =>
    let w := s.takeWhile isWordChar
    match s.drop w.length with
    | '!' :: s => do
      let (bytes, rest) ← someTagBytes? false s
      return (('!' :: w ++ ['!'], bytes), rest)
    | s => do
      let (bytes, rest) ← tagBytes? false 0 s
      let bytes := (Text.encode w ++ bytes).takeWhile (· != 0)
      return (if bytes.isEmpty then ([], bareTag) else (['!'], bytes), rest)

/-- A tag after its exclamation mark. A gap must follow it, or inside brackets and braces a comma. -/
def tag? (flow : Bool) (s : Text) : Option ((Text × TagBytes) × Text) := do
  let (parts, rest) ← tagParts? s
  if gapNext rest || (flow && rest.head? == some ',') then some (parts, rest) else none

/-! ## Directives -/

/-- A directive. -/
inductive Directive where
  | version (major minor : Nat)
  /-- what a handle of tags stands for -/
  | handle (name : Text) (start : TagBytes)
  deriving DecidableEq

/-- A number of at most nine digits. -/
def versionPart? (s : Text) : Option (Nat × Text) :=
  let ds := s.takeWhile Char.isDigit
  if 9 < ds.length then none else (natural? 10 ds).map fun n => (n, s.drop ds.length)

/-- The directive of a version after its name. -/
def version? (s : Text) : Option (Directive × Text) := do
  let (major, s) ← versionPart? (s.dropWhile isBlank)
  match s with
  | '.' :: s =>
    let (minor, s) ← versionPart? s
    return (.version major minor, s)
  | _ => none

/-- A handle of tags. -/
def handle? : Text → Option (Text × Text)
  | '!' :: s =>
    let w := s.takeWhile isWordChar
    match s.drop w.length with
    | '!' :: s => some ('!' :: w ++ ['!'], s)
    | s => if w.isEmpty then some (['!'], s) else none
  | _ => none

/-- The directive of a handle after its name. -/
def handleDirective? (s : Text) : Option (Directive × Text) := do
  let (name, s) ← handle? (s.dropWhile isBlank)
  if !s.head?.any isBlank then failure
  let (start, s) ← someTagBytes? true (s.dropWhile isBlank)
  if gapNext s then return (.handle name start, s) else failure

/-- A directive after its mark, and what follows its line. -/
def directive? (s : Text) : Option (Directive × Text) := do
  let (name, s) ← word? s
  if !gapNext s then failure
  let (d, s) ← if name == "YAML" then version? s else if name == "TAG" then handleDirective? s else none
  return (d, ← lineEnd? s)

end MarkupLens.Yaml
