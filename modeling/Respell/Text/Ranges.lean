-- SUMMARY: Sets of code points given as lists of inclusive ranges.

/-!
# Ranges of code points

The tables of character classes are lists of inclusive ranges. Membership asks every range, so it
does not depend on their order.
-/

namespace Respell.Text

/-- Whether some range holds `n`. -/
def covers (ranges : List (Nat × Nat)) (n : Nat) : Bool :=
  ranges.any fun r => r.1 ≤ n && n ≤ r.2

end Respell.Text
