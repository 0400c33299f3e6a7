/-
A YAML text cut into lexemes. Indentation opens and closes blocks; what is
the key of a mapping shows only at the colon behind it. So wherever a key
might start, its place among the lexemes is remembered (`KeyStart`), and the
colon puts the marks of the key, and if need be of the mapping, in at that
place.
-/
import MarkupLens.Yaml.Plain
import MarkupLens.Yaml.Property
import MarkupLens.Yaml.Quoted

namespace MarkupLens.Yaml

/-- A lexeme. -/
inductive Lexeme where
  | directive (d : Directive)
  | documentStart
  | documentEnd
  /-- a sequence in a block starts -/
  | blockSequence
  /-- a mapping in a block starts -/
  | blockMapping
  /-- a block ends -/
  | blockEnd
  /-- the hyphen of an item -/
  | item
  | openBracket
  | closeBracket
  | openBrace
  | closeBrace
  | comma
  | key
  | value
  | alias (name : Text)
  | anchor (name : Text)
  | tag (handle : Text) (rest : TagBytes)
  | scalar (text : Text) (plain : Bool)
  deriving DecidableEq

/-- A place in a text. -/
structure Cursor where
  rest : Text
  /-- how many characters precede it -/
  taken : Nat
  line : Nat
  column : Nat

/-- The place so many characters on. -/
def Cursor.advance : Nat → Cursor → Cursor
  | n + 1, ⟨c :: s, taken, line, column⟩ =>
    advance n (if isBreak c then ⟨s, taken + 1, line + 1, 0⟩ else ⟨s, taken + 1, line, column + 1⟩)
  | _, c => c

/-- The place at which `rest` is left. -/
def Cursor.advanceTo (rest : Text) (c : Cursor) : Cursor := c.advance (c.rest.length - rest.length)

/-- Where a key might have started. -/
structure KeyStart where
  /-- how many lexemes precede it -/
  place : Nat
  start : Cursor
  /-- nothing but a key can stand there -/
  required : Bool

/-- A key ends on the line it starts on, within so many characters. -/
def keyLength : Nat := 1024

/-- What was seen of a text so far. -/
structure Scanner where
  cursor : Cursor
  /-- the lexemes, the last one first -/
  lexemes : List Lexeme
  /-- the columns of the open blocks, the innermost first -/
  indents : List Nat
  /-- a key may start here -/
  keyAllowed : Bool
  /-- where a key might have started in what is innermost -/
  keyStart : Option KeyStart
  /-- the same for what is around it; as many as there are open brackets and braces -/
  outerStarts : List (Option KeyStart)

/-- A step of the scanner, which may find that the text is no YAML. -/
abbrev Scan := StateT Scanner Option

namespace Scanner

/-- The scanner before a text. -/
def start (s : Text) : Scanner := ⟨⟨s, 0, 0, 0⟩, [], [], true, none, []⟩

/-- Whether brackets or braces are open. -/
def inFlow (s : Scanner) : Bool := !s.outerStarts.isEmpty

/-- Adds a lexeme. -/
def add (l : Lexeme) : Scan Unit := modify fun s => { s with lexemes := l :: s.lexemes }

/-- Puts a lexeme in at a place. -/
def insert (place : Nat) (l : Lexeme) : Scan Unit :=
  modify fun s => { s with lexemes := s.lexemes.insertIdx (s.lexemes.length - place) l }

/-- Goes on to where `rest` is left. -/
def goTo (rest : Text) : Scan Unit := modify fun s => { s with cursor := s.cursor.advanceTo rest }

/-- Goes on by so many characters. -/
def skip (n : Nat) : Scan Unit := modify fun s => { s with cursor := s.cursor.advance n }

/-- Says whether a key may start here. -/
def allowKey (allowed : Bool) : Scan Unit := modify fun s => { s with keyAllowed := allowed }

/-! ## Blocks -/

/-- Opens a block unless one is open at the column. -/
def openBlock (column : Nat) (addMark : Scan Unit) : Scan Unit := do
  let s ← get
  if !s.inFlow && s.indents.head?.all (· < column) then
    set { s with indents := column :: s.indents }
    addMark

/-- Closes the blocks that are indented more than the column, or all of them. -/
def closeBlocks (column : Option Nat) : Scan Unit :=
  modify fun s =>
    if s.inFlow then s
    else
      let closed := s.indents.takeWhile fun i => column.all (· < i)
      { s with
        indents := s.indents.drop closed.length
        lexemes := closed.map (fun _ => .blockEnd) ++ s.lexemes }

/-! ## Keys -/

/-- A place at which a key must have started is not given up. -/
def giveUp : Option KeyStart → Option (Option KeyStart)
  | some k => if k.required then none else some none
  | none => some none

/-- A place of a key, unless it is too far back. -/
def recent (now : Cursor) : Option KeyStart → Option (Option KeyStart)
  | some k =>
    if k.start.line < now.line || k.start.taken + keyLength < now.taken then giveUp (some k) else some (some k)
  | none => some none

/-- The same for a list of places. -/
def allRecent (now : Cursor) (ks : List (Option KeyStart)) : Option (List (Option KeyStart)) := ks.mapM (recent now)

/-- Gives up the places that are too far back. -/
def dropOldKeys : Scan Unit := do
  let s ← get
  let keyStart ← recent s.cursor s.keyStart
  let outerStarts ← allRecent s.cursor s.outerStarts
  set { s with keyStart, outerStarts }

/-- Gives up the innermost place. -/
def dropKey : Scan Unit := do
  let s ← get
  set { s with keyStart := (← giveUp s.keyStart) }

/-- Remembers that a key may start here. -/
def saveKey : Scan Unit := do
  let s ← get
  if s.keyAllowed then
    dropKey
    let required := !s.inFlow && s.indents.head? == some s.cursor.column
    set { s with keyStart := some ⟨s.lexemes.length, s.cursor, required⟩ }

/-! ## Lexemes -/

/-- What comes after blanks, comments and breaks, and whether a key may start there. A tab is no blank where a key may
start, brackets and braces apart. A mark of the byte order may start a line. -/
def passOver (flow : Bool) : (keyAllowed inComment lineStart : Bool) → Text → Text × Bool
  | keyAllowed, _, _, [] => ([], keyAllowed)
  | keyAllowed, inComment, lineStart, c :: s =>
    if isBreak c then passOver flow (keyAllowed || !flow) false true s
    else if inComment || c == '#' then passOver flow keyAllowed true false s
    else if c == ' ' || (c == '\t' && (flow || !keyAllowed)) || (lineStart && c.toNat == 0xfeff) then
      passOver flow keyAllowed false false s
    else (c :: s, keyAllowed)

/-- Goes to the next lexeme. -/
def goToNext : Scan Unit := do
  let s ← get
  let (rest, allowed) := passOver s.inFlow s.keyAllowed false (s.cursor.column == 0) s.cursor.rest
  goTo rest
  allowKey allowed
  dropOldKeys
  closeBlocks (some (← get).cursor.column)

/-- Takes a directive after its mark. -/
def takeDirective (rest : Text) : Scan Unit := do
  closeBlocks none
  dropKey
  allowKey false
  let (d, rest) ← directive? rest
  goTo rest
  add (.directive d)

/-- Takes the mark of a document's start or end. -/
def takeDocumentMark (l : Lexeme) : Scan Unit := do
  closeBlocks none
  dropKey
  allowKey false
  skip 3
  add l

/-- Takes an opening bracket or brace. -/
def takeOpening (l : Lexeme) : Scan Unit := do
  saveKey
  modify fun s => { s with keyStart := none, outerStarts := s.keyStart :: s.outerStarts }
  allowKey true
  skip 1
  add l

/-- Takes a closing bracket or brace. -/
def takeClosing (l : Lexeme) : Scan Unit := do
  dropKey
  modify fun s =>
    match s.outerStarts with
    | k :: ks => { s with keyStart := k, outerStarts := ks }
    | [] => s
  allowKey false
  skip 1
  add l

/-- Takes a comma. -/
def takeComma : Scan Unit := do
  dropKey
  allowKey true
  skip 1
  add .comma

/-- Takes the hyphen of an item. -/
def takeItem : Scan Unit := do
  let s ← get
  if !s.inFlow && !s.keyAllowed then failure
  openBlock s.cursor.column (add .blockSequence)
  dropKey
  allowKey true
  skip 1
  add .item

/-- Takes the question mark of a key. -/
def takeKey : Scan Unit := do
  let s ← get
  if !s.inFlow && !s.keyAllowed then failure
  openBlock s.cursor.column (add .blockMapping)
  dropKey
  allowKey (!s.inFlow)
  skip 1
  add .key

/-- Takes the colon of a value. -/
def takeValue : Scan Unit := do
  let s ← get
  match s.keyStart with
  | some k =>
    insert k.place .key
    openBlock k.start.column (insert k.place .blockMapping)
    modify fun s => { s with keyStart := none }
    allowKey false
  | none =>
    if !s.inFlow && !s.keyAllowed then failure
    openBlock s.cursor.column (add .blockMapping)
    allowKey (!s.inFlow)
  skip 1
  add .value

/-- Takes what may be a key, given the lexeme and what follows it. -/
def takeContent (taken : Option (Lexeme × Text)) : Scan Unit := do
  saveKey
  allowKey false
  let (l, rest) ← taken
  goTo rest
  add l

/-- Takes a block scalar after its mark. -/
def takeBlockScalar (fold : Bool) (rest : Text) : Scan Unit := do
  dropKey
  allowKey true
  let (text, rest) ← blockScalar? (← get).indents.head? fold rest
  goTo rest
  add (.scalar text false)

/-- Takes a plain scalar. After it a key may start if it ends on a later line. -/
def takePlain : Scan Unit := do
  let s ← get
  let p ← plain? (s.indents.head?.elim 0 (· + 1)) s.inFlow s.cursor.rest
  takeContent (some (.scalar p.text true, p.rest))
  if p.lineEnded then allowKey true

/-- Whether a plain scalar may start with a character, given what follows it. -/
def startsPlain (flow : Bool) (c : Char) (s : Text) : Bool :=
  if c == '-' then !s.head?.any isBlank
  else if c == '?' || c == ':' then !flow && !gapNext s
  else !(isGap c || ",[]\x7b\x7d#&*!|>'\"%@".toList.contains c || c.toNat == 0x60)

/-- Takes the lexeme that starts with a character, given what follows it. -/
def takeLexeme (c : Char) (s : Text) : Scan Unit := do
  let state ← get
  let flow := state.inFlow
  let atLineStart := state.cursor.column == 0
  let marks := flow || gapNext s
  if atLineStart && c == '%' then takeDirective s
  else if atLineStart && isDocumentMark (c :: s) then
    takeDocumentMark (if c == '-' then .documentStart else .documentEnd)
  else match c with
    | '[' => takeOpening .openBracket
    | '\x7b' => takeOpening .openBrace
    | ']' => takeClosing .closeBracket
    | '\x7d' => takeClosing .closeBrace
    | ',' => takeComma
    | '*' => takeContent ((anchorName? s).map fun p => (.alias p.1, p.2))
    | '&' => takeContent ((anchorName? s).map fun p => (.anchor p.1, p.2))
    | '!' => takeContent ((tag? flow s).map fun p => (.tag p.1.1 p.1.2, p.2))
    | '\'' => takeContent ((singleQuoted? s).map fun p => (.scalar p.1 false, p.2))
    | '"' => takeContent ((doubleQuoted? s).map fun p => (.scalar p.1 false, p.2))
    | _ =>
      if c == '-' && gapNext s then takeItem
      else if c == '?' && marks then takeKey
      else if c == ':' && marks then takeValue
      else if c == '|' && !flow then takeBlockScalar false s
      else if c == '>' && !flow then takeBlockScalar true s
      else if startsPlain flow c s then takePlain
      else failure

/-- Takes lexemes to the end of the text. Each has a character or more, so as many steps as the text has characters
are enough. -/
def takeAll : (steps : Nat) → Scan Unit
  | 0 => failure
  | steps + 1 => do
    goToNext
    match (← get).cursor.rest with
    | [] =>
      closeBlocks none
      dropKey
    | c :: s =>
      takeLexeme c s
      takeAll steps

end Scanner

/-- The lexemes of a text. -/
def lexemes? (s : Text) : Option (List Lexeme) :=
  ((Scanner.takeAll (s.length + 1)).run (Scanner.start s)).map fun p => p.2.lexemes.reverse

end MarkupLens.Yaml
