-- SUMMARY: How a message shows a single character, and a text between quotes.
import Respell.Text.Visible

/-!
# Escapes in messages

A message shows a character that the reader could not see, or could mistake for a delimiter, by an
escape: the short ones after a backslash, any other by its number in braces.
-/

namespace Respell.Text

/-- The escape of `c` by its number: lower-case hexadecimal digits without padding. -/
def numberEscape (c : Char) : String :=
  "\\u\x7b" ++ String.ofList (Nat.toDigits 16 c.toNat) ++ "\x7d"

/-- The character `c` as part of a message; `quotes` are the quotes that have to be escaped. -/
def escapeChar (quotes : List Char) (c : Char) : String :=
  match c with
  | '\x00' => "\\0"
  | '\t' => "\\t"
  | '\r' => "\\r"
  | '\n' => "\\n"
  | '\\' => "\\\\"
  | c =>
    if quotes.contains c then "\\" ++ c.toString
    else if isAttached c || !isVisible c then numberEscape c
    else c.toString

/-- A single character, with both kinds of quotes escaped. -/
def showChar (c : Char) : String :=
  escapeChar ['\'', '"'] c

/-- A text between double quotes. -/
def showQuoted (s : String) : String :=
  "\"" ++ String.join (s.toList.map (escapeChar ['"'])) ++ "\""

end Respell.Text
