-- SUMMARY: Folding a text to lower case, to compare it with an English word.

/-!
# Case folding

Names of roles and colour choices are read in any case. They are compared with lower-case English
words, so only the letters whose lower case is an ASCII letter matter: the capitals `A` to `Z` and
U+212A, the Kelvin sign. (U+0130 becomes an `i` followed by a combining dot, which is no English
word either way.)
-/

namespace Respell.Text

/-- The lower case of `c` where that is an ASCII letter, and `c` otherwise. -/
def foldChar (c : Char) : Char :=
  if c.toNat == 0x212A then 'k' else c.toLower

/-- A text with every character folded. -/
def fold (s : String) : String :=
  String.ofList (s.toList.map foldChar)

end Respell.Text
