/-
Open tags taken apart: the name, and each attribute with the text in front
of it. A scanned tag keeps every character, so putting it together again
gives the text it was scanned from (`written_scan`), and an edited tag
differs only where it is meant to.

Values are written `name="v"`, `name='v'` or `name=v`; an attribute without
`=` has no value. Any text can be scanned: what fits no attribute (blanks,
slashes, a stray `=`) is gap.
-/
import MarkupLens.Markup.Token

namespace MarkupLens

open Text (isSpace allBlank trimEnd trim after? before? dropStart dropEnding byteLength)

/-- The `=` of an attribute and what follows it, as written. -/
structure Assignment where
  /-- the `=` and the space on either side of it -/
  sign : Text
  /-- the opening quote, if there is one -/
  opening : Text
  value : Text
  /-- the closing quote, if there is one -/
  closing : Text
  deriving DecidableEq, Repr

/-- The text of an assignment. -/
def Assignment.written (a : Assignment) : Text := a.sign ++ a.opening ++ a.value ++ a.closing

/-- An attribute of an open tag. -/
structure Attribute where
  /-- what stands between it and the attribute or tag name before it -/
  gap : Text
  name : Text
  assigned : Option Assignment
  deriving DecidableEq, Repr

namespace Attribute

/-- The text of an attribute, from its name to the end of its value. -/
def written (a : Attribute) : Text := a.name ++ (a.assigned.map Assignment.written).getD []

/-- The value, if the attribute has one. -/
def value (a : Attribute) : Option Text := a.assigned.map (·.value)

end Attribute

/-- An open tag taken apart. -/
structure OpenTag where
  /-- the `<`, if there is one -/
  opening : Text
  name : Text
  attributes : List Attribute
  /-- what stands between the last attribute and the end -/
  gap : Text
  /-- the `>`, if there is one -/
  closing : Text
  /-- ends with a slash that belongs to no attribute -/
  selfClosing : Bool
  deriving DecidableEq, Repr

/-- The elements that have no close tag. -/
def voidElements : List Text :=
  ["area", "base", "br", "col", "embed", "hr", "img", "input", "link", "meta", "source", "track", "wbr"]

/-- Whether an element of this name has no close tag. -/
def isVoid (name : Text) : Bool := voidElements.any (Text.sameName · name)

namespace OpenTag

/-- The text of attributes, with their gaps. -/
def writtenAttributes (attributes : List Attribute) : Text := attributes.flatMap fun a => a.gap ++ a.written

/-- The text of a tag. -/
def written (tag : OpenTag) : Text :=
  tag.opening ++ tag.name ++ writtenAttributes tag.attributes ++ tag.gap ++ tag.closing

/-- The first attribute of that name. -/
def attribute? (tag : OpenTag) (name : Text) : Option Attribute := tag.attributes.find? (·.name == name)

/-- Whether the tag opens an element with content. -/
def hasBody (tag : OpenTag) : Bool := !tag.selfClosing && !isVoid tag.name

/-- The bytes of each attribute within the tag, from first to one past the last; `start` is the byte at
which the gap of the first one starts. -/
def spansFrom (start : Nat) : List Attribute → List (Nat × Nat)
  | [] => []
  | a :: rest =>
    let first := start + byteLength a.gap
    (first, first + byteLength a.written) :: spansFrom (first + byteLength a.written) rest

/-- The bytes of each attribute within the tag. -/
def spans (tag : OpenTag) : List (Nat × Nat) := spansFrom (byteLength (tag.opening ++ tag.name)) tag.attributes

/-! ## Scanning -/

/-- A character of a tag's name. -/
def isNameChar (c : Char) : Bool := !isSpace c && c != '/'

/-- A character that starts no attribute. -/
def isGapChar (c : Char) : Bool := isSpace c || c == '/' || c == '='

/-- The rest of an attribute's name, and what follows. A name ends before a space, an `=`, and a slash
that is the last character. -/
def restOfName : Text → Text × Text
  | [] => ([], [])
  | c :: s =>
    if isSpace c || c == '=' || (c == '/' && s.isEmpty) then ([], c :: s)
    else (c :: (restOfName s).1, (restOfName s).2)

/-- The value after an `=` and its space, and what follows. A quoted value ends at the same quote, any
other before a space. -/
def scanValue (sign : Text) : Text → Assignment × Text
  | [] => (⟨sign, [], [], []⟩, [])
  | c :: s =>
    if c = '"' ∨ c = '\'' then
      let rest := s.dropWhile (· != c)
      (⟨sign, [c], s.takeWhile (· != c), rest.take 1⟩, rest.drop 1)
    else (⟨sign, [], (c :: s).takeWhile (!isSpace ·), []⟩, (c :: s).dropWhile (!isSpace ·))

/-- The assignment after an attribute's name, if there is one, and what follows. -/
def scanAssignment (s : Text) : Option Assignment × Text :=
  match s.dropWhile isSpace with
  | '=' :: r =>
    let (assigned, rest) :=
      scanValue (s.takeWhile isSpace ++ '=' :: r.takeWhile isSpace) (r.dropWhile isSpace)
    (some assigned, rest)
  | _ => (none, s)

/-- The attribute that starts with the character `c`, and what follows. -/
def scanAttribute (gap : Text) (c : Char) (s : Text) : Attribute × Text :=
  let (more, afterName) := restOfName s
  let (assigned, rest) := scanAssignment afterName
  (⟨gap, c :: more, assigned⟩, rest)

/-- A gap closes the tag itself if its last slash has nothing but blanks behind it. -/
def closesItself (gap rest : Text) : Bool := allBlank rest && (trimEnd gap).getLast? == some '/'

/-- What is found between the name and the end of a tag. -/
structure Inside where
  attributes : List Attribute
  gap : Text
  selfClosing : Bool

theorem restOfName_append (s : Text) : (restOfName s).1 ++ (restOfName s).2 = s := by
  induction s with
  | nil => rfl
  | cons c s ih => simp only [restOfName]; split <;> simp [ih]

theorem scanValue_written (sign s : Text) : (scanValue sign s).1.written ++ (scanValue sign s).2 = sign ++ s := by
  cases s with
  | nil => simp [scanValue, Assignment.written]
  | cons c s =>
    simp only [scanValue]
    split
    · simp only [Assignment.written, List.append_assoc, List.take_append_drop, List.cons_append, List.nil_append]
      rw [List.takeWhile_append_dropWhile]
    · simp only [Assignment.written, List.append_assoc, List.nil_append, List.takeWhile_append_dropWhile]

theorem scanAssignment_written (s : Text) :
    ((scanAssignment s).1.map Assignment.written).getD [] ++ (scanAssignment s).2 = s := by
  unfold scanAssignment
  split
  · rename_i r h
    have hs : s.takeWhile isSpace ++ s.dropWhile isSpace = s := List.takeWhile_append_dropWhile
    rw [h] at hs
    simp only [Option.map_some, Option.getD_some, scanValue_written]
    rw [List.append_assoc, List.cons_append, List.takeWhile_append_dropWhile]
    exact hs
  · simp

theorem scanAttribute_written (gap : Text) (c : Char) (s : Text) :
    (scanAttribute gap c s).1.written ++ (scanAttribute gap c s).2 = c :: s := by
  simp only [scanAttribute, Attribute.written, List.cons_append, List.append_assoc]
  rw [scanAssignment_written, restOfName_append]

theorem scanAttribute_shorter (gap : Text) (c : Char) (s : Text) :
    (scanAttribute gap c s).2.length ≤ s.length := by
  have h := congrArg List.length (scanAttribute_written gap c s)
  simp only [List.length_append, List.length_cons] at h
  have : 0 < (scanAttribute gap c s).1.written.length := by
    simp [scanAttribute, Attribute.written]
  omega

/-- Scans what stands between the name and the end of a tag. -/
def scanInside (s : Text) : Inside :=
  match _h : s.dropWhile isGapChar with
  | [] => ⟨[], s, closesItself s []⟩
  | c :: r =>
    let gap := s.takeWhile isGapChar
    let first := scanAttribute gap c r
    let inside := scanInside first.2
    ⟨first.1 :: inside.attributes, inside.gap, closesItself gap (c :: r) || inside.selfClosing⟩
termination_by s.length
decreasing_by
  have h1 := scanAttribute_shorter (s.takeWhile isGapChar) c r
  have h2 := congrArg List.length (List.takeWhile_append_dropWhile (p := isGapChar) (l := s))
  rw [_h] at h2
  simp only [List.length_append, List.length_cons] at h2
  omega

/-- Scans the text of an open tag. A text without `<` or `>` at its ends is scanned all the same. -/
def scan (raw : Text) : OpenTag :=
  let s := dropStart "<" raw
  let inner := dropEnding ">" s
  let inside := scanInside (inner.dropWhile isNameChar)
  { opening := raw.take (raw.length - s.length)
    name := inner.takeWhile isNameChar
    attributes := inside.attributes
    gap := inside.gap
    closing := s.drop inner.length
    selfClosing := inside.selfClosing }

theorem scanInside_written (s : Text) : writtenAttributes (scanInside s).attributes ++ (scanInside s).gap = s := by
  induction hn : s.length using Nat.strongRecOn generalizing s with
  | _ n ih =>
    rw [scanInside]
    split
    · simp [writtenAttributes]
    · rename_i c r h
      have h1 := scanAttribute_shorter (s.takeWhile isGapChar) c r
      have h2 : s.takeWhile isGapChar ++ s.dropWhile isGapChar = s := List.takeWhile_append_dropWhile
      rw [h] at h2
      have h3 := congrArg List.length h2
      simp only [List.length_append, List.length_cons] at h3
      have ih' := ih _ (by omega) (scanAttribute (s.takeWhile isGapChar) c r).2 rfl
      simp only [writtenAttributes, List.flatMap_cons, List.append_assoc] at ih' ⊢
      rw [ih', scanAttribute_written]
      exact h2

theorem dropStart_suffix (start s : Text) :
    s.take (s.length - (dropStart start s).length) ++ dropStart start s = s := by
  unfold dropStart
  cases h : after? start s with
  | none => simp
  | some rest => rw [Text.after?_eq_some.1 h]; simp

theorem dropEnding_append (ending s : Text) : dropEnding ending s ++ s.drop (dropEnding ending s).length = s := by
  unfold dropEnding
  cases h : before? ending s with
  | none => simp
  | some rest => rw [Text.before?_eq_some.1 h]; simp

/-- **A scanned tag keeps every character** of the text it was scanned from. -/
theorem written_scan (raw : Text) : (scan raw).written = raw := by
  simp only [scan, written, List.append_assoc]
  rw [← List.append_assoc (writtenAttributes _), scanInside_written, ← List.append_assoc (List.takeWhile _ _),
    List.takeWhile_append_dropWhile, dropEnding_append, dropStart_suffix]

end OpenTag

/-! ## Names without a scan -/

namespace Markup

/-- The name of an open tag, read off its text. -/
def openTagName (raw : Text) : Text := (dropEnding ">" (dropStart "<" raw)).takeWhile OpenTag.isNameChar

/-- The name of a close tag, read off its text. -/
def closeTagName (raw : Text) : Text :=
  (trim (dropEnding ">" (dropStart "</" raw))).takeWhile (!isSpace ·)

/-- Whether the text of an open tag opens an element with content, judged by its end alone. -/
def opensBody (raw : Text) : Bool :=
  (trimEnd (dropEnding ">" raw)).getLast? != some '/' && !isVoid (openTagName raw)

end Markup

end MarkupLens
