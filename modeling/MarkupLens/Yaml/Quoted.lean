/-
Scalars in quotes. In single quotes a quote is written twice; in double
quotes a backslash starts an escape. Breaks are folded in both, and neither
may hold the mark of a document at the start of a line.
-/
import MarkupLens.Yaml.Character
import MarkupLens.Yaml.Scalar

namespace MarkupLens.Yaml

/-- Puts text in front of what was read. -/
def putBefore (t : Text) (r : Option (Text × Text)) : Option (Text × Text) := r.map fun p => (t ++ p.1, p.2)

/-- The inside of single quotes after the first one, and what follows the last. -/
def singleQuoted? : Text → Option (Text × Text)
  | [] => none
  | '\'' :: '\'' :: s => putBefore ['\''] (singleQuoted? s)
  | '\'' :: s => some ([], s)
  | c :: s =>
    if isGap c then
      let run := c :: s.takeWhile isGap
      let rest := s.dropWhile isGap
      if leadsToMark run rest then none else putBefore (gapText run) (singleQuoted? rest)
    else putBefore [c] (singleQuoted? s)
termination_by s => s.length
decreasing_by
  · simp only [List.length_cons]; omega
  · have := (List.dropWhile_sublist isGap (l := s)).length_le
    simp only [List.length_cons]; omega
  · simp

/-- What may stand behind a backslash. -/
inductive Escape where
  /-- it stands for a character -/
  | char (c : Char)
  /-- a code point follows, in so many hexadecimal digits -/
  | code (digits : Nat)

/-- The escape of a character. -/
def escape? : Char → Option Escape
  | '0' => some (.char '\x00')
  | 'a' => some (.char '\x07')
  | 'b' => some (.char '\x08')
  | 't' | '\t' => some (.char '\t')
  | 'n' => some (.char '\n')
  | 'v' => some (.char '\x0b')
  | 'f' => some (.char '\x0c')
  | 'r' => some (.char '\r')
  | 'e' => some (.char '\x1b')
  | ' ' => some (.char ' ')
  | '"' => some (.char '"')
  | '/' => some (.char '/')
  | '\\' => some (.char '\\')
  | 'N' => some (.char '\u0085')
  | '_' => some (.char '\u00a0')
  | 'L' => some (.char '\u2028')
  | 'P' => some (.char '\u2029')
  | 'x' => some (.code 2)
  | 'u' => some (.code 4)
  | 'U' => some (.code 8)
  | _ => none

/-- The character of a code point in hexadecimal digits, the first so many of a text. -/
def codePoint? (digits : Nat) (s : Text) : Option Char :=
  let ds := s.take digits
  if ds.length < digits then none
  else (natural? 16 ds).bind fun n => if h : n.isValidChar then some (Char.ofNatAux n h) else none

/-- The inside of double quotes after the first one, and what follows the last. -/
def doubleQuoted? : Text → Option (Text × Text)
  | [] => none
  | '"' :: s => some ([], s)
  | '\\' :: c :: s =>
    if isBreak c then
      let run := c :: s.takeWhile isGap
      let rest := s.dropWhile isGap
      if leadsToMark run rest then none else putBefore (breaks run).tail.flatten (doubleQuoted? rest)
    else
      match escape? c with
      | none => none
      | some (.char d) => putBefore [d] (doubleQuoted? s)
      | some (.code digits) =>
        match codePoint? digits s with
        | none => none
        | some d => putBefore [d] (doubleQuoted? (s.drop digits))
  | c :: s =>
    if isGap c then
      let run := c :: s.takeWhile isGap
      let rest := s.dropWhile isGap
      if leadsToMark run rest then none else putBefore (gapText run) (doubleQuoted? rest)
    else if c == '\\' then none
    else putBefore [c] (doubleQuoted? s)
termination_by s => s.length
decreasing_by
  · have := (List.dropWhile_sublist isGap (l := s)).length_le
    simp only [List.length_cons]; omega
  · simp only [List.length_cons]; omega
  · simp only [List.length_cons, List.length_drop]; omega
  · have := (List.dropWhile_sublist isGap (l := s)).length_le
    simp only [List.length_cons]; omega
  · simp

end MarkupLens.Yaml
