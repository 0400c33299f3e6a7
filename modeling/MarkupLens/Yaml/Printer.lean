/-
A context as YAML: one line per key, two spaces for each level, the items of
a list under their key, and texts in the plainest form that is read back as
a text. A text with a line feed is written as a block below a `|`.

`Shape` gathers all that the choice of a form hangs on: what characters a
text has, and where.
-/
import MarkupLens.Context.Basic
import MarkupLens.Text.Utf8
import MarkupLens.Yaml.Character
import MarkupLens.Yaml.Scalar

namespace MarkupLens.Yaml

/-! ## What a text is made of -/

/-- A character that can be written as it is. -/
def isPrintable (c : Char) : Bool :=
  let n := c.toNat
  n == 0x0a || (0x20 ≤ n && n ≤ 0x7e) || (0xa0 ≤ n && n ≤ 0xd7ff) ||
    (0xe000 ≤ n && n ≤ 0xfffd && n ≠ 0xfeff) || 0x10000 ≤ n

/-- A first character that means something in YAML, given what follows it. -/
def startsIndicator (c : Char) (rest : Text) : Bool :=
  ("#,[]\x7b\x7d&*!|>'\"%@".toList.contains c || c.toNat == 0x60) ||
    ((c == '?' || c == ':' || c == '-') && gapNext rest)

/-- A later character that means something in YAML, given what precedes and follows it. -/
def innerIndicator (previous c : Char) (rest : Text) : Bool :=
  (c == ':' && gapNext rest) || (c == '#' && isGap previous)

/-- Whether an indicator stands after the first character. -/
def hasInnerIndicator (previous : Char) : Text → Bool
  | [] => false
  | c :: s => innerIndicator previous c s || hasInnerIndicator c s

/-- Whether anything in the text means something in YAML. -/
def hasIndicator : Text → Bool
  | [] => false
  | c :: s =>
    "---".toList.isPrefixOf (c :: s) || "...".toList.isPrefixOf (c :: s) || startsIndicator c s ||
      hasInnerIndicator c s

/-- Whether somewhere one sort of character stands right before another. -/
def hasPair (first second : Char → Bool) : Text → Bool
  | c :: d :: s => (first c && second d) || hasPair first second (d :: s)
  | _ => false

/-- What the form of a text hangs on. -/
structure Shape where
  indicators : Bool
  breaks : Bool
  /-- a space or break at either end -/
  looseEnds : Bool
  trailingSpace : Bool
  breakSpace : Bool
  spaceBreak : Bool
  unprintable : Bool

/-- The shape of a text. -/
def Shape.of (s : Text) : Shape where
  indicators := hasIndicator s
  breaks := s.any isBreak
  looseEnds := s.head?.any (fun c => isSpace c || isBreak c) || s.getLast?.any (fun c => isSpace c || isBreak c)
  trailingSpace := s.getLast?.any isSpace
  breakSpace := hasPair isBreak isSpace s
  spaceBreak := hasPair isSpace isBreak s
  unprintable := s.any (!isPrintable ·)

/-- A text of this shape may stand bare. -/
def Shape.plain (s : Shape) : Bool :=
  !(s.indicators || s.breaks || s.looseEnds || s.spaceBreak || s.unprintable)

/-- A text of this shape may stand in single quotes. -/
def Shape.singleQuoted (s : Shape) : Bool := !(s.breakSpace || s.spaceBreak || s.unprintable)

/-- A text of this shape may stand in a block. -/
def Shape.block (s : Shape) : Bool := !(s.trailingSpace || s.spaceBreak || s.unprintable)

/-! ## The forms of a text -/

/-- Some spaces. -/
def spaces (n : Nat) : Text := List.replicate n ' '

/-- The inside of single quotes; a line after a break is indented. -/
def singleInside (indent : Nat) : (afterBreak : Bool) → Text → Text
  | afterBreak, [] => if afterBreak then spaces indent else []
  | afterBreak, c :: s =>
    if isBreak c then c :: singleInside indent true s
    else
      (if afterBreak then spaces indent else []) ++ (if c = '\'' then ['\'', '\''] else [c]) ++
        singleInside indent false s

/-- The hexadecimal digits of a number, capital, filled up with zeros. -/
def hexDigits (width : Nat) (n : Nat) : Text :=
  let ds := (Nat.toDigits 16 n).map Char.toUpper
  List.replicate (width - ds.length) '0' ++ ds

/-- A character inside double quotes. -/
def doubleChar (c : Char) : Text :=
  let n := c.toNat
  if c = '"' then "\\\""
  else if c = '\\' then "\\\\"
  else if isPrintable c && !isBreak c then [c]
  else if n = 0 then "\\0"
  else if n = 0x07 then "\\a"
  else if n = 0x08 then "\\b"
  else if n = 0x09 then "\\t"
  else if n = 0x0a then "\\n"
  else if n = 0x0b then "\\v"
  else if n = 0x0c then "\\f"
  else if n = 0x0d then "\\r"
  else if n = 0x1b then "\\e"
  else if n = 0x85 then "\\N"
  else if n = 0x2028 then "\\L"
  else if n = 0x2029 then "\\P"
  else if n ≤ 0xff then "\\x" ++ hexDigits 2 n
  else if n ≤ 0xffff then "\\u" ++ hexDigits 4 n
  else "\\U" ++ hexDigits 8 n

/-- The lines of a block, each indented unless it is empty. -/
def blockLines (indent : Nat) : (afterBreak : Bool) → Text → Text
  | _, [] => []
  | afterBreak, c :: s =>
    if isBreak c then c :: blockLines indent true s
    else (if afterBreak then spaces indent else []) ++ c :: blockLines indent false s

/-- What the header of a block says about its end: no break, one, or more. -/
def chomping (s : Text) : Text :=
  match s.reverse with
  | [] => "-"
  | [c] => if isBreak c then "+" else "-"
  | c :: d :: _ => if !isBreak c then "-" else if isBreak d then "+" else ""

/-- A text as a block, up to the end of its last line. -/
def blockText (indent : Nat) (s : Text) : Text :=
  let hint : Text := if s.head?.any (fun c => isSpace c || isBreak c) then "2" else ""
  let ending : Text := if s.getLast?.any isBreak then "" else "\n"
  '|' :: hint ++ chomping s ++ '\n' :: blockLines indent true s ++ ending

/-- A text in double quotes. -/
def doubleQuoted (s : Text) : Text := '"' :: s.flatMap doubleChar ++ ['"']

/-- A text as it is, or in quotes; `quote` rules out the first. -/
def flowText (indent : Nat) (quote : Bool) (s : Text) : Text :=
  let shape := Shape.of s
  if !quote && shape.plain then s
  else if shape.singleQuoted then '\'' :: singleInside indent false s ++ ['\'']
  else doubleQuoted s

/-- A bare text that would be read as something else, or in doubt. -/
def needsQuotes (s : Text) : Bool := resolve s ≠ .text || isZeroLed s

/-- A text up to the end of its last line; `indent` is that of its further lines. -/
def textLine (indent : Nat) (s : Text) : Text :=
  if s.contains '\n' then
    if (Shape.of s).block then blockText indent s else doubleQuoted s ++ ['\n']
  else flowText indent (needsQuotes s) s ++ ['\n']

/-- A key. -/
def keyText (key : Text) : Text := flowText 0 (needsQuotes key) key

/-- A key of more bytes than this stands behind a `?` of its own. -/
def keyLimit : Nat := 128

/-! ## Contexts -/

mutual

/-- What follows the colon of a key at an indent. -/
def afterColon (indent : Nat) : Value → Text
  | .text s => ' ' :: textLine (indent + 2) s
  | .flag true => " true\n"
  | .flag false => " false\n"
  | .list [] => " []\n"
  | .list (item :: items) => '\n' :: spaces indent ++ itemsText indent (item :: items)
  | .record (.ofEntries []) => [' ', '\x7b', '\x7d', '\n']
  | .record (.ofEntries (e :: es)) => '\n' :: spaces (indent + 2) ++ entriesText (indent + 2) (e :: es)

/-- What follows the colon below a key that stands behind a `?`. -/
def besideColon (indent : Nat) : Value → Text
  | .text s => ' ' :: textLine (indent + 2) s
  | .flag true => " true\n"
  | .flag false => " false\n"
  | .list [] => " []\n"
  | .list (item :: items) => ' ' :: itemsText (indent + 2) (item :: items)
  | .record (.ofEntries []) => [' ', '\x7b', '\x7d', '\n']
  | .record (.ofEntries (e :: es)) => ' ' :: entriesText (indent + 2) (e :: es)

/-- The items of a list at an indent, which the first one has already. -/
def itemsText (indent : Nat) : List Context → Text
  | [] => []
  | item :: items =>
    '-' :: ' ' :: recordText (indent + 2) item ++ (if items.isEmpty then [] else spaces indent) ++
      itemsText indent items

/-- A record at an indent, which its first line has already. -/
def recordText (indent : Nat) : Context → Text
  | .ofEntries [] => ['\x7b', '\x7d', '\n']
  | .ofEntries (e :: es) => entriesText indent (e :: es)

/-- Entries at an indent, which the first one has already. -/
def entriesText (indent : Nat) : List (Text × Value) → Text
  | [] => []
  | (key, value) :: entries =>
    (if keyLimit < key.byteLength then
      '?' :: ' ' :: keyText key ++ '\n' :: spaces indent ++ ':' :: besideColon indent value
    else keyText key ++ ':' :: afterColon indent value) ++
      (if entries.isEmpty then [] else spaces indent) ++ entriesText indent entries

end

/-- A context as YAML. -/
def write (c : Context) : Text := recordText 0 c

end MarkupLens.Yaml
