-- SUMMARY: Which characters start and continue a word, and which texts are words.
import Respell.Text.Ranges
import Respell.Text.Letters
import Respell.Text.Numerals

/-!
# Words

Identifiers and keywords are words: a letter, a mark or `_`, then letters, marks, numbers and `_`.
ASCII characters are decided directly and the others by the tables of `Letters` and `Numerals`.
-/

namespace Respell.Text

/-- Whether `c` may start a word. -/
def isWordStart (c : Char) : Bool :=
  if c.toNat < 0x80 then c == '_' || c.isAlpha
  else covers letterRanges c.toNat

/-- Whether `c` may follow inside a word. -/
def isWordPart (c : Char) : Bool :=
  if c.toNat < 0x80 then c == '_' || c.isAlphanum
  else covers letterRanges c.toNat || covers numeralRanges c.toNat

/-- Whether a list of characters has the shape of a word. -/
def isWordChars : List Char → Bool
  | [] => false
  | c :: cs => isWordStart c && cs.all isWordPart

/-- Whether a text has the shape of a word. -/
def isWord (s : String) : Bool :=
  isWordChars s.toList

theorem isWordPart_of_isWordStart {c : Char} (h : isWordStart c = true) : isWordPart c = true := by
  unfold isWordStart at h
  unfold isWordPart
  split at h <;> simp_all [Char.isAlphanum]
  cases h <;> simp_all

end Respell.Text
