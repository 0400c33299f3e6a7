/-
Quoted texts, as messages show them: between double quotes, with quotes and
backslashes escaped, the common controls under their letter, and every other
character that has no visible form of its own under its code point.
-/
import MarkupLens.Text.Hidden

namespace MarkupLens.Text

/-- The hexadecimal digits of a number, in small letters. -/
def hex (n : Nat) : Text := Nat.toDigits 16 n

/-- One character of a quoted text. -/
def quotedChar (c : Char) : Text :=
  if c = '\x00' then "\\0"
  else if c = '\t' then "\\t"
  else if c = '\r' then "\\r"
  else if c = '\n' then "\\n"
  else if c = '"' then "\\\""
  else if c = '\\' then "\\\\"
  else if isPlain c then [c]
  else "\\u\x7b" ++ hex c.toNat ++ "\x7d"

/-- The text between double quotes, escaped. -/
def quoted (s : Text) : Text := '"' :: s.flatMap quotedChar ++ ['"']

end MarkupLens.Text
