-- SUMMARY: The floating point number nearest to a decimal.
import Respell.Decimal.Shortest

/-!
# Nearest numbers

Reading a decimal means rounding it to the nearest number, and to the one with the even significand
if it lies halfway between two. The rounding is done on exact ratios: the unit of the last place is
found first, and the ratio is then rounded to a multiple of it.

The bits of the positive numbers, read as naturals, are in the order of the numbers themselves.
So the bits of `m · 2^q` are a sum, into which a significand that was rounded up to the next power
of two carries of its own accord, and past the greatest finite number comes infinity.
-/

namespace Respell.Decimal

/-- The quotient `n / d` rounded to the nearest natural number, and halfway to the even one. -/
def roundDiv (n d : Nat) : Nat :=
  match compare (2 * (n % d)) d with
  | .lt => n / d
  | .gt => n / d + 1
  | .eq => if n / d % 2 = 0 then n / d else n / d + 1

/-- The greatest `k` with `2^k ≤ n / d`, for an `n` and a `d` other than zero. -/
def floorLog (n d : Nat) : Int :=
  if d ≤ n then Nat.log2 (n / d) else -(Nat.log2 ((d - 1) / n) + 1 : Nat)

/-- The exponent of the last bit of a significand near `n / d`: it has fifty-three bits, or fewer
    where the exponent is the least that there is. -/
def lastPlace (n d : Nat) : Int :=
  max (floorLog n d - 52) (-1074)

namespace Binary

/-- The binary number nearest to `n / d`. Its significand may have been rounded up to `2^53`. -/
def ofRatio (n d : Nat) : Binary :=
  if n = 0 then ⟨0, -1074⟩
  else
    let q := lastPlace n d
    ⟨roundDiv (n * Nat.pow 2 (-q).toNat) (d * Nat.pow 2 q.toNat), q⟩

/-- The bits of a positive number, with no regard to how great it may be. -/
def bits (b : Binary) : Nat :=
  (b.q + 1074).toNat * leastFull + b.m

/-- The bits of infinity, which are next after those of the greatest finite number. -/
def infinityBits : Nat := 0x7FF0000000000000

/-- The floating point number that `b` is, or infinity if `b` is too great for one. -/
def toFloat (b : Binary) : Float :=
  Float.ofBits (UInt64.ofNat (min b.bits infinityBits))

end Binary

/-- The number nearest to a decimal; past the greatest finite number it is infinity. -/
def Scaled.nearest (d : Scaled) : Float :=
  (Binary.ofRatio (d.coefficient * Nat.pow 10 d.exponent.toNat)
    (Nat.pow 10 (-d.exponent).toNat)).toFloat

/-- The natural number that a row of digits stands for. -/
def ofDigits (digits : List Char) : Nat :=
  digits.foldl (fun n c => 10 * n + (c.toNat - '0'.toNat)) 0

/-- The number nearest to the literal `whole.fraction`. -/
def read (whole fraction : List Char) : Float :=
  Scaled.nearest ⟨ofDigits (whole ++ fraction), -(fraction.length : Int)⟩

/-! ## Lemmas -/

/-- The rounded quotient is within half a unit of the exact one. -/
theorem roundDiv_mul_near {n d : Nat} (hd : 0 < d) :
    2 * n ≤ (2 * roundDiv n d + 1) * d ∧ 2 * roundDiv n d * d ≤ 2 * n + d := by
  have hn := Nat.div_add_mod n d
  have hr := Nat.mod_lt n hd
  have hk : 2 * n = 2 * (n / d * d) + 2 * (n % d) := by
    rw [Nat.mul_comm (n / d) d]
    omega
  have hlow : 2 * (n % d) ≤ d →
      2 * n ≤ (2 * (n / d) + 1) * d ∧ 2 * (n / d) * d ≤ 2 * n + d := by
    intro h
    rw [Nat.add_mul, Nat.mul_assoc 2]
    omega
  have hhigh : d ≤ 2 * (n % d) →
      2 * n ≤ (2 * (n / d + 1) + 1) * d ∧ 2 * (n / d + 1) * d ≤ 2 * n + d := by
    intro h
    rw [Nat.add_mul, Nat.mul_assoc 2, Nat.add_mul (n / d)]
    omega
  unfold roundDiv
  split
  · next h => exact hlow (Nat.le_of_lt (Nat.compare_eq_lt.mp h))
  · next h => exact hhigh (Nat.le_of_lt (Nat.compare_eq_gt.mp h))
  · next h =>
    have h := Nat.compare_eq_eq.mp h
    split
    · exact hlow (Nat.le_of_eq h)
    · exact hhigh (Nat.le_of_eq h.symm)

/-- A quotient that lies halfway is rounded to an even number. -/
theorem even_roundDiv_of_half {n d : Nat} (hd : 0 < d)
    (h : 2 * n = (2 * roundDiv n d + 1) * d ∨ 2 * roundDiv n d * d = 2 * n + d) :
    roundDiv n d % 2 = 0 := by
  have hn := Nat.div_add_mod n d
  have hr := Nat.mod_lt n hd
  have hhalf : ∀ t, t = n / d ∨ t = n / d + 1 →
      (2 * n = (2 * t + 1) * d ∨ 2 * t * d = 2 * n + d) → 2 * (n % d) = d := by
    rintro t (rfl | rfl) h
    · rw [Nat.add_mul, Nat.mul_assoc 2, Nat.mul_comm (n / d) d] at h
      omega
    · rw [Nat.add_mul, Nat.mul_assoc 2, Nat.add_mul (n / d), Nat.mul_comm (n / d) d] at h
      omega
  unfold roundDiv at h ⊢
  split at h
  · next hlt => exact absurd (hhalf _ (.inl rfl) h) (Nat.ne_of_lt (Nat.compare_eq_lt.mp hlt))
  · next hgt => exact absurd (hhalf _ (.inr rfl) h) (Nat.ne_of_gt (Nat.compare_eq_gt.mp hgt))
  · split
    · next heven => exact heven
    · next hodd => omega

/-- A significand that was rounded up to `2^53` has the bits of the next power of two. -/
theorem bits_carry (q : Int) (h : -1074 ≤ q) :
    Binary.bits ⟨2 * leastFull, q⟩ = Binary.bits ⟨leastFull, q + 1⟩ := by
  have : (q + 1 + 1074).toNat = (q + 1074).toNat + 1 := by omega
  simp only [Binary.bits, this, Nat.add_mul]
  omega

/-- Taking a positive number apart keeps its bits. -/
theorem bits_of_parts {x : Float} {b : Binary} (h : parts x = .finite false b) :
    b.bits = x.toBits.toNat := by
  have hx := x.toBits.toNat_lt
  unfold parts at h
  simp only at h
  split at h
  · split at h <;> cases h
  · split at h
    · injection h with hs hb
      subst hb
      have hs := of_decide_eq_false hs
      simp only [Binary.bits, leastFull] at *
      omega
    · injection h with hs hb
      subst hb
      have hs := of_decide_eq_false hs
      simp only [Binary.bits, leastFull] at *
      omega

end Respell.Decimal
