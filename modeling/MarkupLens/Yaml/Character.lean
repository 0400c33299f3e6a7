/-
The sorts of characters that YAML tells apart, and line breaks. A carriage
return with a line feed after it is one break. A break reads as a line feed,
save for the two separators of Unicode, which are kept.
-/
import MarkupLens.Text.Basic

namespace MarkupLens.Yaml

/-- The characters that end a line. -/
def isBreak (c : Char) : Bool :=
  c == '\n' || c == '\r' || c.toNat == 0x85 || c.toNat == 0x2028 || c.toNat == 0x2029

/-- The space that is indented with. -/
def isSpace (c : Char) : Bool := c == ' '

/-- A space or a tab. -/
def isBlank (c : Char) : Bool := c == ' ' || c == '\t'

/-- A space, a tab, or the end of a line; the end of a text counts as one, too. -/
def isGap (c : Char) : Bool := isBlank c || isBreak c || c == '\x00'

/-- Whether the text is at its end or goes on with a gap. -/
def gapNext : Text → Bool
  | [] => true
  | c :: _ => isGap c

/-- A character of the name of an anchor, a handle or a directive. -/
def isWordChar (c : Char) : Bool := c.isAlphanum || c == '_' || c == '-'

/-- The characters that a YAML text may have: no control characters but tabs and breaks. -/
def isAllowed (c : Char) : Bool :=
  let n := c.toNat
  n == 0x09 || n == 0x0a || n == 0x0d || (0x20 ≤ n && n ≤ 0x7e) || n == 0x85 || (0xa0 ≤ n && n ≤ 0xfffd) ||
    0x10000 ≤ n

/-- What a line break reads as. -/
def breakText (c : Char) : Text := if c.toNat == 0x2028 || c.toNat == 0x2029 then [c] else ['\n']

/-- What follows a break; `c` is its first character. -/
def afterBreak (c : Char) (s : Text) : Text := if c == '\r' && s.head? == some '\n' then s.tail else s

theorem afterBreak_length (c : Char) (s : Text) : (afterBreak c s).length ≤ s.length := by
  unfold afterBreak
  split
  · simp
  · exact Nat.le_refl _

/-- What the breaks of a text read as, in their order. -/
def breaks : Text → List Text
  | [] => []
  | '\r' :: '\n' :: s => ['\n'] :: breaks s
  | c :: s => if isBreak c then breakText c :: breaks s else breaks s

/-- Breaks folded: a single one becomes a space, and of more the first is dropped. -/
def folded : List Text → Text
  | [] => []
  | b :: more => if b == ['\n'] then (if more.isEmpty then [' '] else more.flatten) else b ++ more.flatten

/-- What a run of blanks and breaks between two words reads as. Blanks round breaks are dropped. -/
def gapText (run : Text) : Text :=
  match breaks run with
  | [] => run
  | bs => folded bs

/-- Whether a text starts with the mark of a document's start or end. -/
def isDocumentMark : Text → Bool
  | '-' :: '-' :: '-' :: s => gapNext s
  | '.' :: '.' :: '.' :: s => gapNext s
  | _ => false

/-- Whether such a mark stands at the start of the line to which a run of blanks and breaks leads. -/
def leadsToMark (run rest : Text) : Bool := run.getLast?.any isBreak && isDocumentMark rest

end MarkupLens.Yaml
