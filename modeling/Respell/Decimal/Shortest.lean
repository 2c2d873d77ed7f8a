-- SUMMARY: The fewest decimal digits that read back as a given binary number.
import Respell.Decimal.Binary

/-!
# Shortest digits

The decimals that read back as a binary number `b` fill an interval: from halfway to the number
below it to halfway to the number above it, ends included exactly when the significand is even.
`shortest` looks for the coarsest decimal grid with a point in that interval. On each grid only the
two neighbours of `b` can be the nearest, so it tests those two, and of two hits it takes the
nearer.
-/

namespace Respell.Decimal

/-- The choice between two decimals of one length that are equally near. -/
inductive Tie where
  /-- the one whose last digit is even -/
  | toEven
  /-- the greater one -/
  | up
deriving Repr, DecidableEq

/-- A decimal number `coefficient · 10^exponent`. -/
structure Scaled where
  coefficient : Nat
  exponent : Int
deriving Repr, DecidableEq

/-- A decimal in scientific form: the digits `d₁ … dₖ` stand for `d₁.d₂…dₖ · 10^exponent`. -/
structure Scientific where
  digits : List Char
  exponent : Int
deriving Repr, DecidableEq

/-- Compare `a · 10^i` with `n · 2^j`, exactly. -/
def compareScaled (a : Nat) (i : Int) (n : Nat) (j : Int) : Ordering :=
  compare (a * Nat.pow 10 i.toNat * Nat.pow 2 (-j).toNat)
    (n * Nat.pow 2 j.toNat * Nat.pow 10 (-i).toNat)

/-- Whether `d` lies among the reals that are rounded to `b`. The ends of the interval are measured
    in quarters of the gap above `b`. -/
def Binary.readsBack (b : Binary) (d : Scaled) : Bool :=
  let low := if b.narrowBelow then 4 * b.m - 1 else 4 * b.m - 2
  let high := 4 * b.m + 2
  let closed := b.m % 2 == 0
  let atLow := compareScaled d.coefficient d.exponent low (b.q - 2)
  let atHigh := compareScaled d.coefficient d.exponent high (b.q - 2)
  (atLow == .gt || (closed && atLow == .eq)) && (atHigh == .lt || (closed && atHigh == .eq))

/-- How many decimal digits `n` has; zero has one. -/
def digitCount (n : Nat) : Nat :=
  (Nat.toDigits 10 n).length

/-- The least `k` with `b < 10^k`, for a `b` other than zero: the number of digits before the point
    if there are any, and otherwise one less than nothing for each zero after it. -/
def Binary.scale (b : Binary) : Int :=
  let r := b.ratio 0
  if r.2 ≤ r.1 then digitCount (r.1 / r.2)
  else 1 - (digitCount ((r.2 - 1) / r.1) : Int)

/-- The neighbour of `b` on the grid `10^g` that reads back as `b`; the nearer one if both do. -/
def Binary.neighbour? (b : Binary) (tie : Tie) (g : Int) : Option Scaled :=
  let r := b.ratio g
  let below := r.1 / r.2
  let lower : Scaled := ⟨below, g⟩
  let upper : Scaled := ⟨below + 1, g⟩
  match b.readsBack lower, b.readsBack upper with
  | true, true =>
    match compare (2 * r.1) ((2 * below + 1) * r.2), tie with
    | .lt, _ => some lower
    | .gt, _ => some upper
    | .eq, .up => some upper
    | .eq, .toEven => some (if below % 2 = 0 then lower else upper)
  | true, false => some lower
  | false, true => some upper
  | false, false => none

/-- The exact decimal value of `b`. -/
def Binary.exactly (b : Binary) : Scaled :=
  if 0 ≤ b.q then ⟨b.m * Nat.pow 2 b.q.toNat, 0⟩ else ⟨b.m * Nat.pow 5 (-b.q).toNat, b.q⟩

/-- The shortest decimal that reads back as `b`, for a `b` other than zero. Seventeen digits are
    tried; should none do, the exact value is the answer. -/
def Binary.shortest (b : Binary) (tie : Tie) : Scaled :=
  let k := b.scale
  match (List.range 17).findSome? fun i => b.neighbour? tie (k - (i + 1 : Nat)) with
  | some d => d
  | none => b.exactly

/-- The digits of a decimal without the zeros at their end, and the exponent of the first one. -/
def Scaled.scientific (d : Scaled) : Scientific :=
  let digits := Nat.toDigits 10 d.coefficient
  ⟨(digits.reverse.dropWhile (· == '0')).reverse, d.exponent + digits.length - 1⟩

end Respell.Decimal
