-- SUMMARY: A floating point number taken apart into sign, integer significand and power of two.

/-!
# Numbers as exact parts

Everything the program writes about a number starts from its bits, decoded here into `± m · 2^q`.
From then on all arithmetic is exact, on `Nat` and `Int`.
-/

namespace Respell.Decimal

/-- A positive or zero binary number `m · 2^q`. -/
structure Binary where
  m : Nat
  q : Int
deriving Repr, DecidableEq

/-- What a floating point number stands for. -/
inductive Parts where
  | nan
  | infinite (negative : Bool)
  | finite (negative : Bool) (magnitude : Binary)
deriving Repr, DecidableEq

/-- Two to the power of fifty-two, the least significand of a number that uses all its bits. -/
def leastFull : Nat := 0x10000000000000

/-- The parts of a number: its bits are one for the sign, eleven for the exponent and fifty-two for
    the fraction. -/
def parts (x : Float) : Parts :=
  let bits := x.toBits.toNat
  let negative := 0x8000000000000000 ≤ bits
  let exponent : Nat := bits / leastFull % 2048
  let fraction : Nat := bits % leastFull
  if exponent = 2047 then
    if fraction = 0 then .infinite negative else .nan
  else if exponent = 0 then .finite negative ⟨fraction, -1074⟩
  else .finite negative ⟨leastFull + fraction, (exponent : Int) - 1075⟩

namespace Binary

/-- The number `b` measured in units of `10^g`, as a numerator and a denominator. -/
def ratio (b : Binary) (g : Int) : Nat × Nat :=
  (b.m * Nat.pow 2 b.q.toNat * Nat.pow 10 (-g).toNat, Nat.pow 2 (-b.q).toNat * Nat.pow 10 g.toNat)

/-- The natural number that `b` is, if it is one. -/
def toNat? (b : Binary) : Option Nat :=
  let r := b.ratio 0
  if r.1 % r.2 = 0 then some (r.1 / r.2) else none

/-- Whether the gap to the number below is half the gap to the number above: it is just above a
    power of two, unless the numbers below are spaced as widely as they can be. -/
def narrowBelow (b : Binary) : Bool :=
  b.m == leastFull && b.q > -1074

end Binary

end Respell.Decimal
