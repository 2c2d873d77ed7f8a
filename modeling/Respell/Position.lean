-- SUMMARY: Lines and columns of a source text.

/-!
# Positions

Spans count bytes; people count lines and characters. Lines and columns start at one. An offset
inside a character has the position of the next character, and one past the end that of the end.
-/

namespace Respell

/-- A line and a column, both counted from one. -/
structure Position where
  line : Nat
  column : Nat
deriving Repr, DecidableEq, Inhabited

namespace Position

/-- The position after a character. -/
def next (p : Position) (c : Char) : Position :=
  if c = '\n' then ⟨p.line + 1, 1⟩ else ⟨p.line, p.column + 1⟩

/-- The position of `offset`, seen from byte `here` at position `p` with the given text ahead. -/
def seek (offset : Nat) : List Char → Nat → Position → Position
  | [], _, p => p
  | c :: cs, here, p =>
    if offset ≤ here then p else seek offset cs (here + c.utf8Size) (p.next c)

end Position

/-- The position of a byte offset in a source text. -/
def positionOf (source : List Char) (offset : Nat) : Position :=
  .seek offset source 0 ⟨1, 1⟩

/-- What follows the first `n` lines, if there are so many. -/
def dropLines : Nat → List Char → Option (List Char)
  | 0, cs => some cs
  | n + 1, cs =>
    match cs.dropWhile (· != '\n') with
    | [] => none
    | _ :: rest => dropLines n rest

/-- The line with the given number, without the line feed and the carriage returns at its end. -/
def lineText? (source : List Char) (line : Nat) : Option (List Char) :=
  (dropLines (line - 1) source).map fun cs =>
    ((cs.takeWhile (· != '\n')).reverse.dropWhile (· == '\r')).reverse

end Respell
