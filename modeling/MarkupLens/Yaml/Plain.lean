/-
Plain scalars: words with gaps between them, which may go over lines that
are indented enough. A word ends where a colon has a gap after it, and inside
brackets and braces also at what separates or closes there.
-/
import MarkupLens.Yaml.Character

namespace MarkupLens.Yaml

/-- A character that ends a word inside brackets and braces. -/
def endsFlowWord (c : Char) : Bool := c == ',' || c == '[' || c == ']' || c == '\x7b' || c == '\x7d'

/-- The word at the head of a text, which may be empty. Inside brackets and braces a colon must not have one of the
marks used there right after it. -/
def plainWord? (flow : Bool) : Text → Option Text
  | [] => some []
  | c :: s =>
    if isGap c then some []
    else if flow && c == ':' && s.head?.any (fun d => d == '?' || endsFlowWord d) then none
    else if (c == ':' && gapNext s) || (flow && endsFlowWord c) then some []
    else (plainWord? flow s).map (c :: ·)

/-- Whether on a line after the first a tab stands before the column `indent`; `column` is that of the text, if a
break was met. -/
def tabBefore (indent : Nat) : (column : Option Nat) → Text → Bool
  | _, [] => false
  | column, c :: s =>
    if isBreak c then tabBefore indent (some 0) s
    else (c == '\t' && column.any (· < indent)) || tabBefore indent (column.map (· + 1)) s

/-- The column to which a run with a break leads. -/
def columnAfter (run : Text) : Nat := (run.reverse.takeWhile (!isBreak ·)).length

/-- A plain scalar that was read. -/
structure Plain where
  text : Text
  rest : Text
  /-- a break was passed after the last word -/
  lineEnded : Bool

/-- The words after one. Further lines start at the column `indent` or behind it, save inside brackets and braces. -/
def plainMore? (indent : Nat) (flow : Bool) : Text → Option Plain
  | [] => some ⟨[], [], false⟩
  | c :: s =>
    if isGap c then
      let run := c :: s.takeWhile isGap
      let rest := s.dropWhile isGap
      let ended : Bool := run.any isBreak
      if tabBefore indent none run then none
      else if (ended && !flow && columnAfter run < indent) || leadsToMark run rest || rest.head? == some '#' then
        some ⟨[], rest, ended⟩
      else
        match plainWord? flow rest with
        | none => none
        | some [] => some ⟨[], rest, ended⟩
        | some (d :: word) =>
          (plainMore? indent flow (rest.drop (word.length + 1))).map fun p =>
            { p with text := gapText run ++ (d :: word) ++ p.text }
    else some ⟨[], c :: s, false⟩
termination_by s => s.length
decreasing_by
  have := (List.dropWhile_sublist isGap (l := s)).length_le
  simp only [List.length_cons, List.length_drop]; omega

/-- The plain scalar at the head of a text. -/
def plain? (indent : Nat) (flow : Bool) (s : Text) : Option Plain := do
  let word ← plainWord? flow s
  let p ← plainMore? indent flow (s.drop word.length)
  return { p with text := word ++ p.text }

end MarkupLens.Yaml
