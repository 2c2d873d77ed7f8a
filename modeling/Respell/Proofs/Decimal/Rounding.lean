-- SUMMARY: Everything between the halves around a floating point number is rounded to it.
import Mathlib.Algebra.Order.Field.Basic
import Mathlib.Algebra.Order.Field.Power
import Mathlib.Algebra.Order.Field.Rat
import Mathlib.Tactic.FieldSimp
import Mathlib.Tactic.Linarith
import Mathlib.Tactic.NormNum
import Mathlib.Tactic.Positivity
import Mathlib.Tactic.Ring
import Respell.Decimal.Nearest

/-!
# Rounding

Reading a decimal rounds a ratio of natural numbers, and writing a number looks for decimals in an
interval around it. Both are about rational numbers, and here they are told so: `Rounds` is the
interval, `readsBack` decides it, and every decimal in it is rounded to the number that it belongs
to (`Scaled.nearest_of_rounds`).
-/

namespace Respell.Decimal

/-! ## Values -/

/-- The rational number that a binary number is. -/
def Binary.value (b : Binary) : ℚ :=
  b.m * 2 ^ b.q

/-- The rational number that a decimal is. -/
def Scaled.value (d : Scaled) : ℚ :=
  d.coefficient * 10 ^ d.exponent

theorem zpow_mul_pow_toNat {x : ℚ} (hx : x ≠ 0) (j : ℤ) : x ^ j * x ^ (-j).toNat = x ^ j.toNat := by
  rw [← zpow_natCast, ← zpow_natCast, ← zpow_add₀ hx]
  congr 1
  omega

theorem two_zpow_mul_pow (j : ℤ) : (2 : ℚ) ^ j * 2 ^ (-j).toNat = 2 ^ j.toNat :=
  zpow_mul_pow_toNat (by norm_num) j

theorem ten_zpow_mul_pow (j : ℤ) : (10 : ℚ) ^ j * 10 ^ (-j).toNat = 10 ^ j.toNat :=
  zpow_mul_pow_toNat (by norm_num) j

/-- Natural numbers compare as the rational numbers that they are a common multiple of. -/
theorem compare_scaled {left right : ℕ} {x y scale : ℚ} (hscale : 0 < scale)
    (hleft : (left : ℚ) = x * scale) (hright : (right : ℚ) = y * scale) :
    compare left right = compare x y := by
  have hlt : ∀ {m n : ℕ} {u v : ℚ}, (m : ℚ) = u * scale → (n : ℚ) = v * scale → u < v → m < n := by
    intro m n u v hm hn huv
    have hmn : (m : ℚ) < n := by
      rw [hm, hn]
      exact mul_lt_mul_of_pos_right huv hscale
    exact_mod_cast hmn
  rcases lt_trichotomy x y with h | h | h
  · rw [compare_lt_iff_lt.mpr h, compare_lt_iff_lt.mpr (hlt hleft hright h)]
  · have heq : (left : ℚ) = right := by rw [hleft, hright, h]
    rw [compare_eq_iff_eq.mpr h, compare_eq_iff_eq.mpr (by exact_mod_cast heq)]
  · rw [compare_gt_iff_gt.mpr h, compare_gt_iff_gt.mpr (hlt hright hleft h)]

theorem compareScaled_eq (a : ℕ) (i : ℤ) (n : ℕ) (j : ℤ) :
    compareScaled a i n j = compare ((a : ℚ) * 10 ^ i) (n * 2 ^ j) := by
  have hscale : (0 : ℚ) < 10 ^ (-i).toNat * 2 ^ (-j).toNat := by positivity
  refine compare_scaled hscale ?_ ?_
  · push_cast [Nat.pow_eq]
    rw [← ten_zpow_mul_pow i]
    ring
  · push_cast [Nat.pow_eq]
    rw [← two_zpow_mul_pow j]
    ring

/-! ## The numbers that have bits -/

theorem leastFull_cast : (leastFull : ℚ) = 2 ^ (52 : ℤ) := by
  norm_num [leastFull]

/-- A binary number of the shape that the parts of a floating point number have. -/
structure Binary.Canonical (b : Binary) : Prop where
  m_lt : b.m < 2 * leastFull
  q_ge : -1074 ≤ b.q
  q_le : b.q ≤ 971
  /-- fewer bits are used only where the exponent is least -/
  full : -1074 < b.q → leastFull ≤ b.m

theorem canonical_of_parts {x : Float} {negative : Bool} {b : Binary}
    (h : parts x = .finite negative b) : b.Canonical := by
  have hfraction := Nat.mod_lt x.toBits.toNat (show 0 < leastFull by decide)
  unfold parts at h
  simp only at h
  split at h
  · split at h <;> cases h
  · split at h
    · cases h
      refine ⟨?_, ?_, ?_, fun h => ?_⟩ <;> dsimp only at * <;> omega
    · cases h
      refine ⟨?_, ?_, ?_, fun _ => Nat.le_add_right _ _⟩ <;> dsimp only <;> omega

/-! ## Intervals -/

namespace Binary

theorem narrowBelow_iff {b : Binary} :
    b.narrowBelow = true ↔ b.m = leastFull ∧ -1074 < b.q := by
  rw [narrowBelow, Bool.and_eq_true, beq_iff_eq, decide_eq_true_eq]

/-- Halfway to the number below. -/
def lowEnd (b : Binary) : ℚ :=
  (b.m - if b.narrowBelow then 1 / 4 else 1 / 2) * 2 ^ b.q

/-- Halfway to the number above. -/
def highEnd (b : Binary) : ℚ :=
  (b.m + 1 / 2) * 2 ^ b.q

/-- The rational numbers that are rounded to `b`: those between the halves to both sides, and the
    halves themselves if the significand is even. -/
structure Rounds (b : Binary) (v : ℚ) : Prop where
  low : b.lowEnd < v ∨ b.m % 2 = 0 ∧ v = b.lowEnd
  high : v < b.highEnd ∨ b.m % 2 = 0 ∧ v = b.highEnd

theorem lowEnd_eq {b : Binary} (hm : 0 < b.m) :
    b.lowEnd = ((if b.narrowBelow then 4 * b.m - 1 else 4 * b.m - 2 : ℕ) : ℚ) * 2 ^ (b.q - 2) := by
  rw [lowEnd, zpow_sub₀ (by norm_num)]
  split
  · rw [Nat.cast_sub (by omega)]
    push_cast
    ring
  · rw [Nat.cast_sub (by omega)]
    push_cast
    ring

theorem highEnd_eq (b : Binary) : b.highEnd = ((4 * b.m + 2 : ℕ) : ℚ) * 2 ^ (b.q - 2) := by
  rw [highEnd, zpow_sub₀ (by norm_num)]
  push_cast
  ring

/-- `readsBack` decides the interval. -/
theorem readsBack_iff {b : Binary} (hm : 0 < b.m) (d : Scaled) :
    b.readsBack d = true ↔ b.Rounds d.value := by
  have hlow := lowEnd_eq hm
  have hhigh := highEnd_eq b
  simp only [readsBack, compareScaled_eq, Bool.and_eq_true, Bool.or_eq_true, beq_iff_eq,
    compare_gt_iff_gt, compare_lt_iff_lt, compare_eq_iff_eq]
  rw [← hlow, ← hhigh]
  exact ⟨fun h => ⟨h.1, h.2⟩, fun h => ⟨h.low, h.high⟩⟩

theorem rounds_value {b : Binary} : b.Rounds b.value := by
  have hpos : (0 : ℚ) < 2 ^ b.q := by positivity
  refine ⟨.inl ?_, .inl ?_⟩
  · rw [lowEnd, value]
    refine mul_lt_mul_of_pos_right ?_ hpos
    split <;> linarith
  · rw [highEnd, value]
    refine mul_lt_mul_of_pos_right ?_ hpos
    linarith

end Binary

/-! ## Rounding a ratio -/

/-- The natural number is at most a half away, and even if it is a half away. -/
structure RoundsTo (v : ℚ) (k : ℕ) : Prop where
  low : (k : ℚ) - 1 / 2 < v ∨ k % 2 = 0 ∧ v = k - 1 / 2
  high : v < k + 1 / 2 ∨ k % 2 = 0 ∧ v = k + 1 / 2

namespace RoundsTo

variable {v : ℚ} {k k' : ℕ}

theorem sub_half_le (h : RoundsTo v k) : (k : ℚ) - 1 / 2 ≤ v := by
  obtain h | ⟨-, h⟩ := h.low
  · exact h.le
  · exact h.ge

theorem le_add_half (h : RoundsTo v k) : v ≤ k + 1 / 2 := by
  obtain h | ⟨-, h⟩ := h.high
  · exact h.le
  · exact h.le

/-- Between two numbers in a row only the even one is left for what lies halfway. -/
theorem le (h : RoundsTo v k) (h' : RoundsTo v k') : k ≤ k' := by
  have hlow := h.sub_half_le
  have hhigh := h'.le_add_half
  have hnext : (k : ℚ) ≤ k' + 1 := by linarith
  norm_cast at hnext
  obtain hle | rfl := Nat.le_or_eq_of_le_succ hnext
  · exact hle
  · push_cast at hlow
    obtain hlt | ⟨heven, -⟩ := h.low
    · push_cast at hlt
      linarith
    · obtain hlt | ⟨heven', -⟩ := h'.high
      · linarith
      · omega

theorem unique (h : RoundsTo v k) (h' : RoundsTo v k') : k = k' :=
  Nat.le_antisymm (h.le h') (h'.le h)

end RoundsTo

theorem roundsTo_roundDiv {n d : ℕ} {v : ℚ} (hd : 0 < d) (hv : (n : ℚ) = v * d) :
    RoundsTo v (roundDiv n d) := by
  have hd' : (0 : ℚ) < d := by exact_mod_cast hd
  obtain ⟨hhigh, hlow⟩ := roundDiv_mul_near (n := n) hd
  have heven := even_roundDiv_of_half (n := n) hd
  generalize roundDiv n d = k at hhigh hlow heven ⊢
  -- The distance in units of `d / 2` is a difference of natural numbers.
  have hhigh' : v ≤ k + 1 / 2 := by
    refine le_of_mul_le_mul_right ?_ hd'
    have : ((2 * n : ℕ) : ℚ) ≤ ((2 * k + 1) * d : ℕ) := by exact_mod_cast hhigh
    push_cast at this
    linarith
  have hlow' : (k : ℚ) - 1 / 2 ≤ v := by
    refine le_of_mul_le_mul_right ?_ hd'
    have : ((2 * k * d : ℕ) : ℚ) ≤ (2 * n + d : ℕ) := by exact_mod_cast hlow
    push_cast at this
    linarith
  constructor
  · obtain hlt | heq := hlow'.lt_or_eq
    · exact .inl hlt
    · refine .inr ⟨heven (.inr ?_), heq.symm⟩
      rw [← heq] at hv
      have : ((2 * k * d : ℕ) : ℚ) = (2 * n + d : ℕ) := by
        push_cast
        linarith
      exact_mod_cast this
  · obtain hlt | heq := hhigh'.lt_or_eq
    · exact .inl hlt
    · refine .inr ⟨heven (.inl ?_), heq⟩
      rw [heq] at hv
      have : ((2 * n : ℕ) : ℚ) = ((2 * k + 1) * d : ℕ) := by
        push_cast
        linarith
      exact_mod_cast this

/-- `floorLog` finds the power of two below the ratio. -/
theorem floorLog_spec {n d : ℕ} (hn : 0 < n) (hd : 0 < d) :
    (2 : ℚ) ^ floorLog n d ≤ n / d ∧ (n : ℚ) / d < 2 ^ (floorLog n d + 1) := by
  have hn' : (0 : ℚ) < n := by exact_mod_cast hn
  have hd' : (0 : ℚ) < d := by exact_mod_cast hd
  unfold floorLog
  split
  · next hle =>
    have hdiv : n / d ≠ 0 := (Nat.div_pos hle hd).ne'
    have hlow := Nat.log2_self_le hdiv
    have hhigh := Nat.lt_log2_self (n := n / d)
    rw [Nat.le_div_iff_mul_le hd] at hlow
    rw [Nat.div_lt_iff_lt_mul hd] at hhigh
    rw [le_div_iff₀ hd', div_lt_iff₀ hd']
    constructor
    · exact_mod_cast hlow
    · exact_mod_cast hhigh
  · next hlt =>
    have hdiv : (d - 1) / n ≠ 0 := (Nat.div_pos (by omega) hn).ne'
    have hlow := Nat.log2_self_le hdiv
    have hhigh := Nat.lt_log2_self (n := (d - 1) / n)
    rw [Nat.le_div_iff_mul_le hn] at hlow
    rw [Nat.div_lt_iff_lt_mul hn] at hhigh
    generalize Nat.log2 ((d - 1) / n) = k at hlow hhigh ⊢
    have hlow' : (2 : ℚ) ^ k * n < d := by
      have : 2 ^ k * n < d := by omega
      exact_mod_cast this
    have hhigh' : (d : ℚ) ≤ 2 ^ (k + 1) * n := by
      have : d ≤ 2 ^ (k + 1) * n := by omega
      exact_mod_cast this
    constructor
    · rw [zpow_neg, zpow_natCast, inv_le_comm₀ (by positivity) (by positivity), inv_div,
        div_le_iff₀ hn']
      exact hhigh'
    · have hexp : -((k + 1 : ℕ) : ℤ) + 1 = -(k : ℤ) := by omega
      rw [hexp, zpow_neg, zpow_natCast, lt_inv_comm₀ (by positivity) (by positivity), inv_div,
        lt_div_iff₀ hn']
      exact hlow'

namespace Binary

/-- A ratio is rounded to a natural number of units in its last place. -/
theorem roundsTo_ofRatio {n d : ℕ} (hn : n ≠ 0) (hd : 0 < d) :
    (ofRatio n d).q = lastPlace n d ∧
      RoundsTo (n / d / 2 ^ lastPlace n d) (ofRatio n d).m := by
  rw [ofRatio, if_neg hn]
  generalize lastPlace n d = q
  have hd' : (d : ℚ) ≠ 0 := by exact_mod_cast hd.ne'
  have hpos : (2 : ℚ) ^ q ≠ 0 := by positivity
  have hratio : ((n * Nat.pow 2 (-q).toNat : ℕ) : ℚ) =
      n / d / 2 ^ q * ((d * Nat.pow 2 q.toNat : ℕ) : ℚ) := by
    push_cast [Nat.pow_eq]
    rw [← two_zpow_mul_pow q]
    field_simp
  exact ⟨rfl, roundsTo_roundDiv (Nat.mul_pos hd (Nat.pow_pos (by decide))) hratio⟩

theorem ofRatio_eq {n d k : ℕ} {q : ℤ} (hn : n ≠ 0) (hd : 0 < d) (hq : lastPlace n d = q)
    (h : RoundsTo (n / d / 2 ^ q) k) : ofRatio n d = ⟨k, q⟩ := by
  obtain ⟨hplace, hround⟩ := roundsTo_ofRatio hn hd
  rw [hq] at hplace hround
  exact congrArg₂ Binary.mk (hround.unique h) hplace

variable {b : Binary} {v : ℚ}

theorem Rounds.le_highEnd (h : b.Rounds v) : v ≤ b.highEnd := by
  obtain h | ⟨-, h⟩ := h.high
  · exact h.le
  · exact h.le

theorem Rounds.lowEnd_le (h : b.Rounds v) : b.lowEnd ≤ v := by
  obtain h | ⟨-, h⟩ := h.low
  · exact h.le
  · exact h.ge

theorem lowEnd_ge (b : Binary) : ((b.m : ℚ) - 1 / 2) * 2 ^ b.q ≤ b.lowEnd := by
  have hpos : (0 : ℚ) < 2 ^ b.q := by positivity
  refine mul_le_mul_of_nonneg_right ?_ hpos.le
  split <;> linarith

theorem Rounds.pos (h : b.Rounds v) (hm : 0 < b.m) : 0 < v := by
  have hm' : (1 : ℚ) ≤ b.m := by exact_mod_cast hm
  have hpos : (0 : ℚ) < (b.m - 1 / 2) * 2 ^ b.q := mul_pos (by linarith) (by positivity)
  linarith [h.lowEnd_le, b.lowEnd_ge]

/-- In units of its own last place, a number is at most half a unit from all that is rounded to
    it. -/
theorem Rounds.div (h : b.Rounds v) : RoundsTo (v / 2 ^ b.q) b.m := by
  have hpos : (0 : ℚ) < 2 ^ b.q := by positivity
  have hge := b.lowEnd_ge
  constructor
  · rw [lt_div_iff₀ hpos, div_eq_iff hpos.ne']
    obtain hlt | ⟨heven, heq⟩ := h.low
    · exact .inl (hge.trans_lt hlt)
    · obtain hlt | heq' := hge.lt_or_eq
      · exact .inl (heq ▸ hlt)
      · exact .inr ⟨heven, heq.trans heq'.symm⟩
  · rw [div_lt_iff₀ hpos, div_eq_iff hpos.ne']
    exact h.high

/-- What is rounded to a number has the last place of the number. Only below a power of two the
    places are half as wide, and there it is rounded up to the power of two. -/
theorem Rounds.lastPlace_eq {n d : ℕ} (hd : 0 < d) (hb : b.Canonical) (hm : 0 < b.m)
    (h : b.Rounds (n / d)) : lastPlace n d = b.q ∨
      lastPlace n d = b.q - 1 ∧ b.m = leastFull ∧ -1074 < b.q ∧ (n / d : ℚ) < b.m * 2 ^ b.q := by
  have hpos : (0 : ℚ) < 2 ^ b.q := by positivity
  have hv := h.pos hm
  have hn : 0 < n := by
    rcases Nat.eq_zero_or_pos n with rfl | hn
    · simp at hv
    · exact hn
  obtain ⟨hlog, hlog'⟩ := floorLog_spec hn hd
  have hlt : floorLog n d < b.q + 53 := by
    rw [← zpow_lt_zpow_iff_right₀ (one_lt_two (α := ℚ))]
    have hm' : (b.m : ℚ) + 1 ≤ 2 * leastFull := by exact_mod_cast hb.m_lt
    have hhigh : b.highEnd < 2 * leastFull * 2 ^ b.q :=
      mul_lt_mul_of_pos_right (by linarith) hpos
    have hpow : (2 : ℚ) ^ (b.q + 53) = 2 * leastFull * 2 ^ b.q := by
      rw [zpow_add₀ two_ne_zero, leastFull_cast]
      ring
    linarith [h.le_highEnd]
  have hq := hb.q_ge
  by_cases hfull : (leastFull : ℚ) * 2 ^ b.q ≤ n / d
  · have hge : b.q + 52 < floorLog n d + 1 := by
      rw [← zpow_lt_zpow_iff_right₀ (one_lt_two (α := ℚ)), zpow_add₀ two_ne_zero, mul_comm,
        ← leastFull_cast]
      linarith
    exact .inl (by rw [lastPlace]; omega)
  · have hlt' : floorLog n d < b.q + 52 := by
      rw [← zpow_lt_zpow_iff_right₀ (one_lt_two (α := ℚ)), zpow_add₀ two_ne_zero,
        mul_comm _ (2 ^ 52), ← leastFull_cast]
      linarith
    rcases hq.eq_or_lt with heq | hnormal
    · exact .inl (by rw [lastPlace]; omega)
    · have hmin := hb.full hnormal
      have hmeq : b.m = leastFull := by
        by_contra hne
        have hm' : (leastFull : ℚ) + 1 ≤ b.m := by
          exact_mod_cast (show leastFull + 1 ≤ b.m by omega)
        have hover : (leastFull : ℚ) * 2 ^ b.q ≤ (b.m - 1 / 2) * 2 ^ b.q :=
          mul_le_mul_of_nonneg_right (by linarith) hpos.le
        linarith [h.lowEnd_le, b.lowEnd_ge]
      have hge : b.q + 51 < floorLog n d + 1 := by
        have hhalf : (2 : ℚ) ^ (b.q + 51) ≤ (b.m - 1 / 2) * 2 ^ b.q := by
          rw [zpow_add₀ two_ne_zero, mul_comm, hmeq, leastFull_cast]
          exact mul_le_mul_of_nonneg_right (by norm_num) hpos.le
        rw [← zpow_lt_zpow_iff_right₀ (one_lt_two (α := ℚ))]
        linarith [h.lowEnd_le, b.lowEnd_ge]
      refine .inr ⟨by rw [lastPlace]; omega, hmeq, hnormal, ?_⟩
      rw [hmeq]
      exact not_le.mp hfull

/-- Everything between the halves around a number is rounded to the number. -/
theorem Rounds.bits_ofRatio {n d : ℕ} (hd : 0 < d) (hb : b.Canonical) (hm : 0 < b.m)
    (h : b.Rounds (n / d)) : (ofRatio n d).bits = b.bits := by
  have hn : n ≠ 0 := by
    rintro rfl
    simpa using h.pos hm
  obtain hq | ⟨hq, hmeq, hnormal, hlt⟩ := h.lastPlace_eq hd hb hm
  · rw [ofRatio_eq hn hd hq h.div]
  · have hpos : (0 : ℚ) < 2 ^ (b.q - 1) := by positivity
    have hstep : (2 : ℚ) ^ b.q = 2 * 2 ^ (b.q - 1) := by
      rw [zpow_sub₀ two_ne_zero]
      ring
    have hnarrow : b.narrowBelow = true := narrowBelow_iff.mpr ⟨hmeq, hnormal⟩
    have hlow := h.lowEnd_le
    rw [lowEnd, hnarrow, if_pos rfl] at hlow
    have hround : ofRatio n d = ⟨2 * leastFull, b.q - 1⟩ := by
      refine ofRatio_eq hn hd hq ⟨?_, .inl ?_⟩
      · rw [lt_div_iff₀ hpos, div_eq_iff hpos.ne', ← hmeq]
        push_cast
        obtain hlt | heq := hlow.lt_or_eq
        · refine .inl (lt_of_eq_of_lt ?_ hlt)
          rw [hstep]
          ring
        · refine .inr ⟨by omega, heq.symm.trans ?_⟩
          rw [hstep]
          ring
      · rw [div_lt_iff₀ hpos, ← hmeq]
        push_cast
        rw [hstep] at hlt
        linarith
    rw [hround, bits_carry (b.q - 1) (by omega), ← hmeq, Int.sub_add_cancel]

end Binary

theorem Scaled.value_eq_div (d : Scaled) : d.value =
    ((d.coefficient * Nat.pow 10 d.exponent.toNat : ℕ) : ℚ) /
      (Nat.pow 10 (-d.exponent).toNat : ℕ) := by
  have hpos : (10 : ℚ) ^ (-d.exponent).toNat ≠ 0 := by positivity
  push_cast [Nat.pow_eq]
  rw [eq_div_iff hpos, value, mul_assoc, ten_zpow_mul_pow]

/-- A decimal between the halves around a number is read as the number. -/
theorem Scaled.nearest_of_rounds {b : Binary} {d : Scaled} (hb : b.Canonical) (hm : 0 < b.m)
    (h : b.Rounds d.value) : d.nearest = b.toFloat := by
  rw [d.value_eq_div] at h
  have hpos : 0 < Nat.pow 10 (-d.exponent).toNat := Nat.pow_pos (by decide)
  rw [nearest, Binary.toFloat, Binary.toFloat, h.bits_ofRatio hpos hb hm]

/-! ## The shortest decimal -/

namespace Binary

theorem value_exactly (b : Binary) : b.exactly.value = b.value := by
  unfold exactly
  split
  · next hq =>
    have hpow : (2 : ℚ) ^ b.q.toNat = 2 ^ b.q := by
      rw [← zpow_natCast, Int.toNat_of_nonneg hq]
    simp [Scaled.value, value, hpow]
  · next hq =>
    have hpow : (5 : ℚ) ^ (-b.q).toNat * 5 ^ b.q = 1 := by
      rw [← zpow_natCast, ← zpow_add₀ (by norm_num), Int.toNat_of_nonneg (by omega),
        Int.add_left_neg, zpow_zero]
    have hten : (10 : ℚ) ^ b.q = 5 ^ b.q * 2 ^ b.q := by
      rw [← mul_zpow]
      norm_num
    simp only [Scaled.value, value]
    push_cast [Nat.pow_eq]
    rw [hten, mul_assoc, ← mul_assoc (5 ^ _), hpow, one_mul]

/-- The neighbour that is chosen reads back and lies on the grid. -/
theorem readsBack_of_neighbour? {b : Binary} {tie : Tie} {g : Int} {d : Scaled}
    (h : b.neighbour? tie g = some d) : b.readsBack d = true ∧ d.exponent = g := by
  unfold neighbour? at h
  simp only at h
  split at h
  · next hlower hupper =>
    split at h
    · cases h
      exact ⟨hlower, rfl⟩
    · cases h
      exact ⟨hupper, rfl⟩
    · cases h
      exact ⟨hupper, rfl⟩
    · cases h
      split
      · exact ⟨hlower, rfl⟩
      · exact ⟨hupper, rfl⟩
  · next hlower _ =>
    cases h
    exact ⟨hlower, rfl⟩
  · next _ hupper =>
    cases h
    exact ⟨hupper, rfl⟩
  · cases h

/-- The shortest decimal lies between the halves. -/
theorem rounds_shortest {b : Binary} (hm : 0 < b.m) (tie : Tie) :
    b.Rounds (b.shortest tie).value := by
  unfold shortest
  simp only
  split
  · next d hd =>
    obtain ⟨i, -, hi⟩ := List.exists_of_findSome?_eq_some hd
    exact (readsBack_iff hm d).mp (readsBack_of_neighbour? hi).1
  · rw [value_exactly]
    exact rounds_value

theorem coefficient_pos {b : Binary} {d : Scaled} (hm : 0 < b.m) (h : b.Rounds d.value) :
    0 < d.coefficient := by
  rcases Nat.eq_zero_or_pos d.coefficient with hzero | hpos
  · have hpos := h.pos hm
    rw [Scaled.value, hzero] at hpos
    simp at hpos
  · exact hpos

end Binary

end Respell.Decimal
