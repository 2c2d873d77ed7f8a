-- SUMMARY: A numeral in a source is read as the floating point number nearest to its value.
import Mathlib
import Respell.Proofs.Decimal.Layout
import Respell.Proofs.Decimal.Nearness
import Respell.Proofs.Lexing.Faults

/-!
# Numerals

The lexer reads the digits of a numeral as one natural number, and counts those behind the point.
This leaves the value that they have by their places, and so the number of the token is the one
nearest to that value. It does not depend on what table is used, nor on what surrounds the numeral.
-/

namespace Respell

namespace Decimal

/-- The value of the digits before a point and behind it. -/
def digitsValue (whole fraction : List Char) : ℚ :=
  ofDigits whole + ofDigits fraction / 10 ^ fraction.length

theorem value_eq_digitsValue (whole fraction : List Char) :
    Scaled.value ⟨ofDigits (whole ++ fraction), -(fraction.length : ℤ)⟩ =
      digitsValue whole fraction := by
  have hpos : (10 : ℚ) ^ fraction.length ≠ 0 := by positivity
  rw [Scaled.value, digitsValue, ofDigits_append, zpow_neg, zpow_natCast, ← div_eq_mul_inv]
  push_cast
  rw [add_div, mul_div_cancel_left₀ _ hpos]

/-- A literal is read as the number nearest to the value of its digits. -/
theorem read_isNearest (whole fraction : List Char) :
    IsNearest (digitsValue whole fraction) (read whole fraction) := by
  rw [← value_eq_digitsValue]
  exact Scaled.isNearest _

theorem read_eq_iff {whole fraction : List Char} {x : Float} :
    read whole fraction = x ↔ IsNearest (digitsValue whole fraction) x := by
  have hread := read_isNearest whole fraction
  constructor
  · rintro rfl
    exact hread
  · exact hread.unique

/-- The value of a numeral, which may have a point. -/
def textValue (cs : List Char) : ℚ :=
  digitsValue (cs.takeWhile Char.isDigit) (cs.dropWhile Char.isDigit).tail

theorem ofText?_isNearest {cs : List Char} {x : Float} (h : ofText? cs = some x) :
    IsNearest (textValue cs) x := by
  unfold ofText? at h
  unfold textValue
  dsimp only at h
  split at h
  · next hdrop =>
    rw [hdrop]
    split at h
    · cases h
    · cases h
      exact read_isNearest _ _
  · next hdrop =>
    rw [hdrop]
    split at h
    · cases h
      exact read_isNearest _ _
    · cases h

end Decimal

open Decimal (IsNearest textValue)

namespace Lexer

theorem Spells.isNearest {table : Table} {x : Float} {text : List Char}
    (h : Spells table (.number x) text) : IsNearest (textValue text) x :=
  Decimal.ofText?_isNearest h.ofText?

end Lexer

/-- A numeral that is written down is a token of the number nearest to it. -/
theorem Spelling.number_isNearest (table : Table) (n : Numeral) :
    ∃ x, (Spelling.number n).kind table = .number x ∧ IsNearest (textValue n.chars) x :=
  ⟨_, rfl, (Spelling.spells table (.number n)).isNearest⟩

/-- Every number token of a source is nearest to the numeral that it covers. -/
theorem tokenize_number_isNearest {table : Table} {source : String} {tokens : List Token}
    (h : tokenize table source = .ok tokens) {t : Token} (ht : t ∈ tokens) {x : Float}
    (hx : t.kind = .number x) :
    ∃ before text after, Lexer.Slice source.toList t.span before text after ∧
      IsNearest (textValue text) x := by
  have heof : t.kind ≠ .eof := by simp [hx]
  obtain ⟨before, text, after, hslice, hspells, -⟩ :=
    (tokenize_eq_ok_iff.mp h).slices [] rfl t ht heof
  rw [hx] at hspells
  exact ⟨before, text, after, hslice, hspells.isNearest⟩

end Respell
