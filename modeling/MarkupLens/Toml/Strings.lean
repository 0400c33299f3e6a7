/-
TOML strings: basic ones in double quotes with escapes, literal ones in
single quotes without, and the forms in three quotes that go over several
lines. Readers take the text after the opening quotes and give what follows
the closing ones.
-/
import MarkupLens.Text.Basic

namespace MarkupLens.Toml

/-- A character that may stand in a string or comment: no control but the tab. -/
def isAllowed (c : Char) : Bool := c == '\t' || (0x20 ≤ c.toNat && c.toNat ≠ 0x7f)

/-- The value of a hexadecimal digit. -/
def hexValue? (c : Char) : Option Nat :=
  if c.isDigit then some (c.toNat - '0'.toNat)
  else if 'a' ≤ c && c ≤ 'f' then some (c.toNat - 'a'.toNat + 10)
  else if 'A' ≤ c && c ≤ 'F' then some (c.toNat - 'A'.toNat + 10)
  else none

/-- The character whose code point some hexadecimal digits write. -/
def charOfHex? (digits : Text) : Option Char := do
  let ds ← digits.mapM hexValue?
  let n := ds.foldl (fun n d => n * 16 + d) 0
  if n < 0xd800 ∨ (0xdfff < n ∧ n ≤ 0x10ffff) then some (Char.ofNat n) else none

/-- The character of an escape of one letter. -/
def letterEscape? (c : Char) : Option Char :=
  if c = 'b' then some '\x08'
  else if c = 't' then some '\t'
  else if c = 'n' then some '\n'
  else if c = 'f' then some '\x0c'
  else if c = 'r' then some '\r'
  else if c = '"' then some '"'
  else if c = '\\' then some '\\'
  else none

/-- A character in front of what was read after it. -/
def push (c : Char) (read : Option (Text × Text)) : Option (Text × Text) := read.map fun p => (c :: p.1, p.2)

/-- The rest of a basic string. -/
def basic? : Text → Option (Text × Text)
  | [] => none
  | '"' :: s => some ([], s)
  | '\\' :: 'u' :: a :: b :: c :: d :: s => (charOfHex? [a, b, c, d]).bind fun x => push x (basic? s)
  | '\\' :: 'U' :: a :: b :: c :: d :: e :: f :: g :: h :: s =>
    (charOfHex? [a, b, c, d, e, f, g, h]).bind fun x => push x (basic? s)
  | '\\' :: e :: s => (letterEscape? e).bind fun x => push x (basic? s)
  | c :: s => if c ≠ '\\' ∧ isAllowed c = true then push c (basic? s) else none

/-- The rest of a literal string. -/
def literal? : Text → Option (Text × Text)
  | [] => none
  | '\'' :: s => some ([], s)
  | c :: s => if isAllowed c then push c (literal? s) else none

/-- Space within a line. -/
def isSpace (c : Char) : Bool := c == ' ' || c == '\t'

/-- What follows the end of the line at the head of a text. -/
def newline? : Text → Option Text
  | '\n' :: s => some s
  | '\r' :: '\n' :: s => some s
  | _ => none

/-- Whether a line goes no further but for space. -/
def endsLine (s : Text) : Bool := (newline? (s.dropWhile isSpace)).isSome

/-- The rest of a basic string over several lines. `skipping` after a backslash at the end of a line, until
something else than space comes. Up to two quotes may stand before the closing three. -/
def basicLines? : (skipping : Bool) → Text → Option (Text × Text)
  | _, [] => none
  | _, '"' :: '"' :: '"' :: '"' :: '"' :: s => some (['"', '"'], s)
  | _, '"' :: '"' :: '"' :: '"' :: s => some (['"'], s)
  | _, '"' :: '"' :: '"' :: s => some ([], s)
  | skipping, '\r' :: '\n' :: s => if skipping then basicLines? true s else push '\n' (basicLines? false s)
  | _, '\\' :: 'u' :: a :: b :: c :: d :: s => (charOfHex? [a, b, c, d]).bind fun x => push x (basicLines? false s)
  | _, '\\' :: 'U' :: a :: b :: c :: d :: e :: f :: g :: h :: s =>
    (charOfHex? [a, b, c, d, e, f, g, h]).bind fun x => push x (basicLines? false s)
  | skipping, c :: s =>
    if c = '\\' then
      if endsLine s then basicLines? true s
      else
        match s with
        | e :: s => (letterEscape? e).bind fun x => push x (basicLines? false s)
        | [] => none
    else if c = '\n' then if skipping then basicLines? true s else push c (basicLines? false s)
    else if skipping && isSpace c then basicLines? true s
    else if isAllowed c then push c (basicLines? false s)
    else none

/-- The rest of a literal string over several lines. -/
def literalLines? : Text → Option (Text × Text)
  | [] => none
  | '\'' :: '\'' :: '\'' :: '\'' :: '\'' :: s => some (['\'', '\''], s)
  | '\'' :: '\'' :: '\'' :: '\'' :: s => some (['\''], s)
  | '\'' :: '\'' :: '\'' :: s => some ([], s)
  | '\r' :: '\n' :: s => push '\n' (literalLines? s)
  | c :: s => if c = '\n' ∨ isAllowed c = true then push c (literalLines? s) else none

/-- A text without the line end it may start with. -/
def dropNewline (s : Text) : Text := (newline? s).getD s

/-- The string at the head of a text, in any of its forms, and what follows. -/
def string? : Text → Option (Text × Text)
  | '"' :: '"' :: '"' :: s => basicLines? false (dropNewline s)
  | '"' :: s => basic? s
  | '\'' :: '\'' :: '\'' :: s => literalLines? (dropNewline s)
  | '\'' :: s => literal? s
  | _ => none

end MarkupLens.Toml
