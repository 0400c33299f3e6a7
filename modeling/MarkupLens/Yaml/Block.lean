/-
Scalars in blocks. The header says whether lines are kept (`|`) or folded
(`>`), what becomes of the breaks at the end, and perhaps how far the block
is indented; without that, the widest of the lines up to the first one that
is not empty decides.
-/
import MarkupLens.Yaml.Character

namespace MarkupLens.Yaml

/-- What becomes of the breaks at the end of a block. -/
inductive Chomping where
  | strip
  /-- the first one stays -/
  | clip
  | keep

/-- The breaks that stay. -/
def Chomping.ending (c : Chomping) (bs : List Text) : Text :=
  match c with
  | .strip => []
  | .clip => bs.head?.getD []
  | .keep => bs.flatten

/-- What the header of a block says. -/
structure BlockHeader where
  chomping : Chomping
  /-- how far the block is indented below what surrounds it -/
  hint : Option Nat
  rest : Text

/-- The chomping at the head of a text. -/
def chomping? : Text → Option (Chomping × Text)
  | '+' :: s => some (.keep, s)
  | '-' :: s => some (.strip, s)
  | _ => none

/-- The digit of a header at the head of a text, which is none for zero. -/
def hint? : Text → Option (Nat × Text)
  | c :: s => if c.isDigit then some (c.toNat - '0'.toNat, s) else none
  | [] => none

/-- What follows the blanks, the comment and the break that end a line. -/
def lineEnd? (s : Text) : Option Text :=
  let s := s.dropWhile isBlank
  match (if s.head? == some '#' then s.dropWhile (!isBreak ·) else s) with
  | [] => some []
  | c :: s => if isBreak c then some (afterBreak c s) else none

/-- The header of a block after its first mark. -/
def blockHeader? (s : Text) : Option BlockHeader := do
  let (first, s) := match chomping? s with
    | some (c, s) => (some c, s)
    | none => (none, s)
  let (hint, s) := match hint? s with
    | some (n, s) => (some n, s)
    | none => (none, s)
  if hint == some 0 then failure
  let (last, s) := match first, hint, chomping? s with
    | none, some _, some (c, s) => (some c, s)
    | _, _, _ => (none, s)
  return ⟨(first.or last).getD .clip, hint, ← lineEnd? s⟩

/-- Where a line starts that is not empty. -/
structure LineStart where
  /-- the breaks of the empty lines before it -/
  breaks : List Text
  /-- the widest indentation met -/
  widest : Nat
  /-- its own indentation -/
  column : Nat
  rest : Text

/-- Goes from the start of a line to one that is not empty. Up to `limit` spaces are taken as indentation, or all of
them; no tab may stand among them. -/
def lineStart? (limit : Option Nat) (s : Text) : Option LineStart :=
  let spaces := (s.takeWhile isSpace).length
  let column := match limit with
    | some n => min n spaces
    | none => spaces
  match _h : s.drop column with
  | [] => some ⟨[], column, column, []⟩
  | c :: r =>
    if c == '\t' && limit.all (column < ·) then none
    else if isBreak c then
      (lineStart? limit (afterBreak c r)).map fun l =>
        { l with breaks := breakText c :: l.breaks, widest := max column l.widest }
    else some ⟨[], column, column, c :: r⟩
termination_by s.length
decreasing_by
  have h1 := congrArg List.length _h
  have h2 := afterBreak_length c r
  simp only [List.length_drop, List.length_cons] at h1
  omega

theorem lineStart?_rest {limit : Option Nat} {s : Text} {l : LineStart} (h : lineStart? limit s = some l) :
    l.rest.length ≤ s.length := by
  fun_induction lineStart? limit s generalizing l with
  | case1 => cases h; simp
  | case2 => cases h
  | case3 s spaces column c r hd _ _ =>
    rename_i ih
    obtain ⟨l', hl, rfl⟩ := Option.map_eq_some_iff.1 h
    have h1 := congrArg List.length hd
    have h2 := afterBreak_length c r
    have h3 := ih hl
    simp only [List.length_drop, List.length_cons] at h1
    simp only
    omega
  | case4 s spaces column c r hd =>
    cases h
    rw [← hd]
    simp

/-- A line of a block, and the breaks after it. -/
structure BlockLine where
  text : Text
  breaks : List Text

/-- A line with a blank at its start is not folded. -/
def BlockLine.isLoose (l : BlockLine) : Bool := l.text.head?.any isBlank

/-- The lines of a block that is indented by `indent`, and what follows them. -/
def blockLines? (indent column : Nat) (s : Text) : Option (List BlockLine × Text) :=
  if column ≠ indent ∨ s = [] then some ([], s)
  else
    let text := s.takeWhile (!isBreak ·)
    match _h : s.dropWhile (!isBreak ·) with
    | [] => some ([⟨text, []⟩], [])
    | c :: r =>
      match _hl : lineStart? (some indent) (afterBreak c r) with
      | none => none
      | some l =>
        (blockLines? indent l.column l.rest).map fun p => (⟨text, breakText c :: l.breaks⟩ :: p.1, p.2)
termination_by s.length
decreasing_by
  have h1 := congrArg List.length _h
  have h2 := (List.dropWhile_sublist (!isBreak ·) (l := s)).length_le
  have h3 := afterBreak_length c r
  have h4 := lineStart?_rest _hl
  simp only [List.length_cons] at h1
  omega

/-- What stands between two lines. -/
def between (fold : Bool) (l next : BlockLine) : Text :=
  if fold && !l.isLoose && !next.isLoose then folded l.breaks else l.breaks.flatten

/-- The text of lines put together. -/
def joinLines (fold : Bool) (c : Chomping) : List BlockLine → Text
  | [] => []
  | [l] => l.text ++ c.ending l.breaks
  | l :: next :: more => l.text ++ between fold l next ++ joinLines fold c (next :: more)

/-- The text of a block scalar after its first mark, and what follows it. What surrounds the block is indented by
`outer`, if it is a block itself. -/
def blockScalar? (outer : Option Nat) (fold : Bool) (s : Text) : Option (Text × Text) := do
  let header ← blockHeader? s
  let limit := header.hint.map (outer.getD 0 + ·)
  let start ← lineStart? limit header.rest
  let indent := limit.getD (max start.widest (max 1 (outer.elim 0 (· + 1))))
  let (lines, rest) ← blockLines? indent start.column start.rest
  let text := match lines with
    | [] => match header.chomping with
      | .keep => start.breaks.flatten
      | _ => []
    | lines => start.breaks.flatten ++ joinLines fold header.chomping lines
  return (text, rest)

end MarkupLens.Yaml
