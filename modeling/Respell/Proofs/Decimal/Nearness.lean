-- SUMMARY: Every decimal is read as the floating point number that is nearest to it.
import Mathlib
import Respell.Proofs.Decimal.Bits
import Respell.Proofs.Decimal.Rounding

/-!
# Nearest numbers

`Rounds` describes which rational numbers are rounded to a number, by the halves to both sides of
it. Here it is compared with all numbers that there are: none of them is nearer, and one that is as
near leaves the even significand (`Rounds.nearest`). Every decimal lies between the halves of some
number, unless it is too great: from halfway between the greatest number and the next power of two
on there is only infinity. So what a decimal is read as is determined by its value alone
(`Scaled.isNearest`).
-/

namespace Respell.Decimal

namespace Binary

variable {b c : Binary} {v : ℚ}

/-! ## Neighbours -/

/-- A number in units of a place that is no greater than its last one. -/
theorem value_eq_units {q : ℤ} (h : q ≤ c.q) :
    c.value = ((c.m * 2 ^ (c.q - q).toNat : ℕ) : ℚ) * 2 ^ q := by
  have hplaces : (2 : ℚ) ^ (c.q - q).toNat * 2 ^ q = 2 ^ c.q := by
    rw [← zpow_natCast, ← zpow_add₀ two_ne_zero, Int.toNat_of_nonneg (by omega),
      Int.sub_add_cancel]
  push_cast
  rw [value, mul_assoc, hplaces]

/-- Numbers with a smaller last place are below the least significand that uses all bits. -/
theorem Canonical.value_le_of_q_lt (hc : c.Canonical) {q : ℤ} (h : c.q < q) :
    c.value ≤ (leastFull - 1 / 2) * 2 ^ q := by
  have hm : (c.m : ℚ) ≤ 2 * leastFull - 1 := by
    have : (c.m : ℚ) + 1 ≤ 2 * leastFull := by exact_mod_cast hc.m_lt
    linarith
  have hfull : (0 : ℚ) ≤ 2 * leastFull - 1 := (Nat.cast_nonneg c.m).trans hm
  have hplace : (2 : ℚ) ^ c.q ≤ 2 ^ (q - 1) :=
    zpow_le_zpow_right₀ one_le_two (Int.le_sub_one_of_lt h)
  calc c.value ≤ (2 * leastFull - 1) * 2 ^ (q - 1) := by
        exact mul_le_mul hm hplace (by positivity) hfull
    _ = (leastFull - 1 / 2) * 2 ^ q := by
        rw [zpow_sub_one₀ two_ne_zero]
        ring

theorem Canonical.q_le_of_value_le (hb : b.Canonical) (hc : c.Canonical) (h : b.value ≤ c.value) :
    b.q ≤ c.q := by
  by_contra hlt
  have hlt := not_le.mp hlt
  have hfull : (leastFull : ℚ) ≤ b.m := by exact_mod_cast hb.full (hc.q_ge.trans_lt hlt)
  have hbelow := hc.value_le_of_q_lt hlt
  have hgap : ((leastFull : ℚ) - 1 / 2) * 2 ^ b.q < b.m * 2 ^ b.q :=
    mul_lt_mul_of_pos_right (by linarith) (by positivity)
  exact absurd (hbelow.trans_lt hgap) (not_lt.mpr h)

/-- The next number above is a unit of the last place away. -/
theorem Canonical.le_of_value_lt (hb : b.Canonical) (hc : c.Canonical) (h : b.value < c.value) :
    (b.m + 1) * 2 ^ b.q ≤ c.value := by
  have hpos : (0 : ℚ) < 2 ^ b.q := by positivity
  have hq := hb.q_le_of_value_le hc h.le
  rw [value_eq_units hq] at h ⊢
  have hlt := lt_of_mul_lt_mul_right h hpos.le
  refine mul_le_mul_of_nonneg_right ?_ hpos.le
  exact_mod_cast hlt

/-- The next number below is a unit of the last place away, or half a unit below a power of two. -/
theorem Canonical.value_le_of_lt (hb : b.Canonical) (hc : c.Canonical) (h : c.value < b.value) :
    c.value ≤ (b.m - if b.narrowBelow then 1 / 2 else 1) * 2 ^ b.q := by
  have hpos : (0 : ℚ) < 2 ^ b.q := by positivity
  rcases le_or_gt b.q c.q with hq | hq
  · rw [value_eq_units hq] at h ⊢
    have hlt := lt_of_mul_lt_mul_right h hpos.le
    refine mul_le_mul_of_nonneg_right ?_ hpos.le
    have hstep : ((c.m * 2 ^ (c.q - b.q).toNat : ℕ) : ℚ) + 1 ≤ b.m := by exact_mod_cast hlt
    split <;> linarith
  · refine (hc.value_le_of_q_lt hq).trans (mul_le_mul_of_nonneg_right ?_ hpos.le)
    have hnormal := hc.q_ge.trans_lt hq
    have hfull := hb.full hnormal
    split
    · have hfull : (leastFull : ℚ) ≤ b.m := by exact_mod_cast hfull
      linarith
    · next hwide =>
      have hne : b.m ≠ leastFull := fun hm => hwide (narrowBelow_iff.mpr ⟨hm, hnormal⟩)
      have hnext : (leastFull : ℚ) + 1 ≤ b.m := by
        exact_mod_cast Nat.lt_of_le_of_ne hfull hne.symm
      linarith

/-! ## Nearest -/

/-- No number is nearer, and if another one is as near, the significand is even. -/
structure Nearest (b : Binary) (v : ℚ) : Prop where
  canonical : b.Canonical
  le : ∀ c : Binary, c.Canonical → |v - b.value| ≤ |v - c.value|
  even : ∀ c : Binary, c.Canonical → c.value ≠ b.value → |v - b.value| = |v - c.value| →
    b.m % 2 = 0

/-- What is at most half a gap above `x` is nearer to `x` than to everything from the whole gap on,
    or halfway. -/
theorem near_or_halfway {P : Prop} {x y gap : ℚ} (hgap : 0 < gap) (hfar : x + gap ≤ y)
    (h : v < x + gap / 2 ∨ P ∧ v = x + gap / 2) :
    |v - x| < |v - y| ∨ P ∧ |v - x| = |v - y| := by
  have hle : v ≤ x + gap / 2 := by
    obtain h | ⟨-, h⟩ := h
    · exact h.le
    · exact h.le
  have hvy : |v - y| = y - v := by
    rw [abs_sub_comm, abs_of_nonneg]
    linarith
  rw [hvy]
  rcases le_or_gt v x with hv | hv
  · rw [abs_sub_comm, abs_of_nonneg (by linarith)]
    exact .inl (by linarith)
  · rw [abs_of_pos (by linarith)]
    obtain hlt | ⟨hp, heq⟩ := h
    · exact .inl (by linarith)
    · rcases hfar.lt_or_eq with hfar | hnext
      · exact .inl (by linarith)
      · exact .inr ⟨hp, by linarith⟩

theorem Rounds.near_or_halfway_above (h : b.Rounds v) (hb : b.Canonical) (hc : c.Canonical)
    (hlt : b.value < c.value) :
    |v - b.value| < |v - c.value| ∨ b.m % 2 = 0 ∧ |v - b.value| = |v - c.value| := by
  have hnext := hb.le_of_value_lt hc hlt
  have hhigh : b.highEnd = b.value + 2 ^ b.q / 2 := by
    rw [highEnd, value]
    ring
  have hfar : b.value + 2 ^ b.q ≤ c.value := by
    rw [value]
    linarith
  exact near_or_halfway (by positivity) hfar (hhigh ▸ h.high)

theorem Rounds.near_or_halfway_below (h : b.Rounds v) (hb : b.Canonical) (hc : c.Canonical)
    (hlt : c.value < b.value) :
    |v - b.value| < |v - c.value| ∨ b.m % 2 = 0 ∧ |v - b.value| = |v - c.value| := by
  have hnext := hb.value_le_of_lt hc hlt
  -- The lower end lies halfway to the next number below, whether that is half a unit away or one.
  obtain ⟨gap, hgap, hlow, hfar⟩ : ∃ gap : ℚ, 0 < gap ∧ -b.lowEnd = -b.value + gap / 2 ∧
      -b.value + gap ≤ -c.value := by
    refine ⟨(if b.narrowBelow then 1 / 2 else 1) * 2 ^ b.q, ?_, ?_, ?_⟩
    · split <;> positivity
    · rw [lowEnd, value]
      split <;> ring
    · have hvalue : b.value = b.m * 2 ^ b.q := rfl
      linarith
  have hmirrored := near_or_halfway (v := -v) hgap hfar (P := b.m % 2 = 0) (by
    rw [← hlow, neg_lt_neg_iff, neg_inj]
    exact h.low)
  rwa [neg_sub_neg, neg_sub_neg, abs_sub_comm, abs_sub_comm c.value] at hmirrored

/-- What lies between the halves around a number is nearest to it. -/
theorem Rounds.nearest (h : b.Rounds v) (hb : b.Canonical) : b.Nearest v := by
  have hother : ∀ c : Binary, c.Canonical → c.value ≠ b.value →
      |v - b.value| < |v - c.value| ∨ b.m % 2 = 0 ∧ |v - b.value| = |v - c.value| := by
    intro c hc hne
    rcases lt_or_gt_of_ne hne with hlt | hgt
    · exact h.near_or_halfway_below hb hc hlt
    · exact h.near_or_halfway_above hb hc hgt
  refine ⟨hb, fun c hc => ?_, fun c hc hne heq => ?_⟩
  · rcases eq_or_ne c.value b.value with heq | hne
    · rw [heq]
    · rcases hother c hc hne with hlt | ⟨-, heq⟩
      · exact hlt.le
      · exact heq.le
  · rcases hother c hc hne with hlt | ⟨heven, -⟩
    · exact absurd heq hlt.ne
    · exact heven

/-- Different numbers have different values. -/
theorem Canonical.eq_of_value_eq (hb : b.Canonical) (hc : c.Canonical) (h : b.value = c.value) :
    b = c := by
  have hq := le_antisymm (hb.q_le_of_value_le hc h.le) (hc.q_le_of_value_le hb h.ge)
  obtain ⟨m, q⟩ := b
  obtain ⟨m', q'⟩ := c
  obtain rfl : q = q' := hq
  have hm := mul_right_cancel₀ (zpow_ne_zero q two_ne_zero) h
  rw [show m = m' by exact_mod_cast hm]

theorem Nearest.value_le (hb : b.Nearest v) (hc : c.Nearest v) : c.value ≤ b.value := by
  by_contra hlt
  have hlt := not_le.mp hlt
  have hdist := le_antisymm (hb.le c hc.canonical) (hc.le b hb.canonical)
  have heven := hb.even c hc.canonical hlt.ne' hdist
  have heven' := hc.even b hb.canonical hlt.ne hdist.symm
  have hhalf : v - b.value = c.value - v := by
    rcases abs_eq_abs.mp hdist with heq | heq
    · exact absurd (sub_right_injective heq) hlt.ne
    · rw [heq, neg_sub]
  -- An even significand has a next one that needs no more bits.
  have hnext : Canonical ⟨b.m + 1, b.q⟩ := by
    have hm := hb.canonical.m_lt
    refine ⟨?_, hb.canonical.q_ge, hb.canonical.q_le, fun hfull => ?_⟩
    · dsimp only
      omega
    · exact Nat.le_succ_of_le (hb.canonical.full hfull)
  have hvalue : value ⟨b.m + 1, b.q⟩ = (b.m + 1) * 2 ^ b.q := by
    rw [value, Nat.cast_succ]
  have habove : b.value < value ⟨b.m + 1, b.q⟩ := by
    rw [hvalue, value]
    exact mul_lt_mul_of_pos_right (lt_add_one _) (by positivity)
  rcases (hb.canonical.le_of_value_lt hc.canonical hlt).lt_or_eq with hbetween | heq
  · rw [← hvalue] at hbetween
    have hnear := hb.le _ hnext
    rw [abs_of_pos (show 0 < v - b.value by linarith)] at hnear
    refine absurd hnear (not_le.mpr (abs_lt.mpr ⟨?_, ?_⟩)) <;> linarith
  · obtain rfl := hnext.eq_of_value_eq hc.canonical (hvalue.trans heq)
    dsimp only at heven'
    omega

/-- Only one number is nearest. -/
theorem Nearest.unique (hb : b.Nearest v) (hc : c.Nearest v) : b = c :=
  hb.canonical.eq_of_value_eq hc.canonical (le_antisymm (hc.value_le hb) (hb.value_le hc))

/-! ## Every ratio is rounded -/

/-- The place of the last bit of the greatest number. -/
def greatestPlace : ℤ := 971

/-- The greatest number. -/
def greatest : Binary :=
  ⟨2 * leastFull - 1, greatestPlace⟩

theorem highEnd_greatest : greatest.highEnd = (2 * leastFull - 1 / 2) * 2 ^ greatestPlace := by
  rw [highEnd, greatest, Nat.cast_sub (by decide)]
  push_cast
  ring

/-- The number was rounded in the last place of `v`: there it uses all bits, or the place is the
    least that there is. The significand may have been rounded up to the next power of two. -/
structure Placed (b : Binary) (v : ℚ) : Prop where
  q_ge : -1074 ≤ b.q
  lt : v < 2 * leastFull * 2 ^ b.q
  full : -1074 < b.q → leastFull * 2 ^ b.q ≤ v
  rounds : RoundsTo (v / 2 ^ b.q) b.m

theorem placed_zero : Placed ⟨0, -1074⟩ 0 where
  q_ge := le_refl _
  lt := by
    have hfull : (0 : ℚ) < leastFull := by exact_mod_cast (show 0 < leastFull by decide)
    exact mul_pos (mul_pos two_pos hfull) (by positivity)
  full h := absurd h (lt_irrefl _)
  rounds := by
    rw [zero_div]
    exact ⟨.inl (by norm_num), .inl (by norm_num)⟩

theorem placed_ofRatio {n d : ℕ} (hd : 0 < d) : (ofRatio n d).Placed (n / d) := by
  rcases Nat.eq_zero_or_pos n with rfl | hn
  · rw [Nat.cast_zero, zero_div]
    exact placed_zero
  obtain ⟨hlow, hhigh⟩ := floorLog_spec hn hd
  obtain ⟨hplace, hround⟩ := roundsTo_ofRatio hn.ne' hd
  rw [← hplace] at hround
  have hlog : floorLog n d - 52 ≤ (ofRatio n d).q := hplace ▸ le_max_left _ _
  refine ⟨hplace ▸ le_max_right _ _, hhigh.trans_le ?_, fun hnormal => ?_, hround⟩
  · calc (2 : ℚ) ^ (floorLog n d + 1) ≤ 2 ^ (1 + 52 + (ofRatio n d).q) :=
          zpow_le_zpow_right₀ one_le_two (by omega)
      _ = 2 * leastFull * 2 ^ (ofRatio n d).q := by
          rw [zpow_add₀ two_ne_zero, zpow_add₀ two_ne_zero, leastFull_cast, zpow_one]
  · have heq : floorLog n d = 52 + (ofRatio n d).q := by
      rw [hplace, lastPlace] at hnormal ⊢
      omega
    rw [heq, zpow_add₀ two_ne_zero, ← leastFull_cast] at hlow
    exact hlow

/-- What is at most half a unit away from a number lies between the halves around it, if it is not
    below a power of two. -/
theorem rounds_of_roundsTo (h : RoundsTo (v / 2 ^ b.q) b.m)
    (hnarrow : b.narrowBelow = true → (b.m : ℚ) * 2 ^ b.q ≤ v) : b.Rounds v := by
  have hpos : (0 : ℚ) < 2 ^ b.q := by positivity
  constructor
  · rw [lowEnd]
    split
    · next hb =>
      refine .inl (lt_of_lt_of_le ?_ (hnarrow hb))
      exact mul_lt_mul_of_pos_right (by linarith) hpos
    · rw [← lt_div_iff₀ hpos, ← div_eq_iff hpos.ne']
      exact h.low
  · rw [highEnd, ← div_lt_iff₀ hpos, ← div_eq_iff hpos.ne']
    exact h.high

namespace Placed

theorem m_le (h : b.Placed v) : b.m ≤ 2 * leastFull := by
  have hunits : v / 2 ^ b.q < 2 * leastFull := (div_lt_iff₀ (by positivity)).mpr h.lt
  have hlt : (b.m : ℚ) < (2 * leastFull : ℕ) + 1 := by
    push_cast
    linarith [h.rounds.sub_half_le]
  exact Nat.lt_succ_iff.mp (by exact_mod_cast hlt)

theorem le_m (h : b.Placed v) (hnormal : -1074 < b.q) : leastFull ≤ b.m := by
  have hunits : leastFull ≤ v / 2 ^ b.q := (le_div_iff₀ (by positivity)).mpr (h.full hnormal)
  have hlt : (leastFull : ℚ) < b.m + 1 := by linarith [h.rounds.le_add_half]
  exact Nat.lt_succ_iff.mp (by exact_mod_cast hlt)

/-- What is not too great has no place beyond that of the greatest number. -/
theorem q_le (h : b.Placed v) (hlt : v < greatest.highEnd) : b.q ≤ greatestPlace := by
  rw [highEnd_greatest] at hlt
  by_contra hover
  have hplace : (2 : ℚ) ^ (greatestPlace + 1) ≤ 2 ^ b.q :=
    zpow_le_zpow_right₀ one_le_two (by omega)
  rw [zpow_add_one₀ two_ne_zero] at hplace
  have hpos : (0 : ℚ) < 2 ^ greatestPlace := by positivity
  have hle : (leastFull : ℚ) * (2 ^ greatestPlace * 2) ≤ leastFull * 2 ^ b.q :=
    mul_le_mul_of_nonneg_left hplace (Nat.cast_nonneg _)
  have hnormal : -1074 < b.q := lt_trans (by decide) (not_le.mp hover)
  linarith [h.full hnormal]

/-- What is too great has no place before that of the greatest number. -/
theorem le_q (h : b.Placed v) (hle : greatest.highEnd ≤ v) : greatestPlace ≤ b.q := by
  rw [highEnd_greatest] at hle
  by_contra hlt
  have hplace : (2 : ℚ) ^ b.q ≤ 2 ^ (greatestPlace - 1) :=
    zpow_le_zpow_right₀ one_le_two (by omega)
  rw [zpow_sub_one₀ two_ne_zero] at hplace
  have hless : (2 * leastFull : ℚ) * 2 ^ b.q ≤ 2 * leastFull * (2 ^ greatestPlace * 2⁻¹) :=
    mul_le_mul_of_nonneg_left hplace (mul_nonneg zero_le_two (Nat.cast_nonneg _))
  have hone : (1 : ℚ) ≤ leastFull := by exact_mod_cast (show 1 ≤ leastFull by decide)
  have hgap : (0 : ℚ) < (leastFull - 1 / 2) * 2 ^ greatestPlace :=
    mul_pos (by linarith) (by positivity)
  linarith [h.lt]

/-- Rounded up to the next power of two, the number has the next place. -/
theorem rounds_carry {q : ℤ} (h : Placed ⟨2 * leastFull, q⟩ v) : Rounds ⟨leastFull, q + 1⟩ v := by
  have hmin : -1074 ≤ q := h.q_ge
  have hlt : v < 2 * leastFull * 2 ^ q := h.lt
  have hlow : ((2 * leastFull : ℕ) : ℚ) - 1 / 2 ≤ v / 2 ^ q := h.rounds.sub_half_le
  rw [le_div_iff₀ (by positivity)] at hlow
  push_cast at hlow
  have hstep : (2 : ℚ) ^ (q + 1) = 2 * 2 ^ q := by
    rw [zpow_add_one₀ two_ne_zero, mul_comm]
  have hnarrow : narrowBelow ⟨leastFull, q + 1⟩ = true :=
    narrowBelow_iff.mpr ⟨rfl, Int.lt_add_one_of_le hmin⟩
  have hpos : (0 : ℚ) < 2 ^ q := by positivity
  constructor
  · rw [lowEnd, hnarrow, if_pos rfl]
    simp only [hstep]
    rcases hlow.lt_or_eq with hlt | heq
    · exact .inl (by linarith)
    · exact .inr ⟨by decide, by linarith⟩
  · rw [highEnd]
    simp only [hstep]
    exact .inl (by linarith)

/-- What is not too great is rounded to a number that has the same bits. -/
theorem exists_rounds (h : b.Placed v) (hlt : v < greatest.highEnd) :
    ∃ b' : Binary, b'.Canonical ∧ b'.Rounds v ∧ b.bits = b'.bits := by
  have hmax := h.q_le hlt
  rcases h.m_le.lt_or_eq with hm | hm
  · refine ⟨b, ⟨hm, h.q_ge, hmax, h.le_m⟩, rounds_of_roundsTo h.rounds fun hnarrow => ?_, rfl⟩
    obtain ⟨hfull, hnormal⟩ := narrowBelow_iff.mp hnarrow
    rw [hfull]
    exact h.full hnormal
  · obtain ⟨m, q⟩ := b
    obtain rfl : m = 2 * leastFull := hm
    have hbelow : q < greatestPlace := by
      refine lt_of_le_of_ne hmax ?_
      rintro rfl
      have hlow : ((2 * leastFull : ℕ) : ℚ) - 1 / 2 ≤ v / 2 ^ greatestPlace := h.rounds.sub_half_le
      rw [le_div_iff₀ (by positivity)] at hlow
      push_cast at hlow
      rw [highEnd_greatest] at hlt
      linarith
    have hcanonical : Canonical ⟨leastFull, q + 1⟩ :=
      ⟨show leastFull < 2 * leastFull by decide, Int.le_add_one h.q_ge, hbelow, fun _ => le_refl _⟩
    exact ⟨⟨leastFull, q + 1⟩, hcanonical, h.rounds_carry, bits_carry q h.q_ge⟩

/-- What is too great is rounded beyond the bits of infinity. -/
theorem infinityBits_le (h : b.Placed v) (hle : greatest.highEnd ≤ v) : infinityBits ≤ b.bits := by
  have hge := h.le_q hle
  have hfull := h.le_m (lt_of_lt_of_le (by decide) hge)
  rcases hge.eq_or_lt with heq | hgt
  · have hm : 2 * leastFull ≤ b.m := by
      rw [highEnd_greatest, heq, ← le_div_iff₀ (by positivity)] at hle
      have hnext : (2 * leastFull : ℚ) ≤ b.m + 1 := by linarith [h.rounds.le_add_half]
      have hnext : 2 * leastFull ≤ b.m + 1 := by exact_mod_cast hnext
      rcases Nat.lt_or_ge b.m (2 * leastFull) with hlt | hge
      · -- Halfway to the next power of two the greatest significand is odd.
        have hm : b.m + 1 = 2 * leastFull := Nat.le_antisymm hlt hnext
        have hm' : (b.m : ℚ) + 1 = 2 * leastFull := by exact_mod_cast hm
        obtain hlt | ⟨heven, -⟩ := h.rounds.high
        · linarith
        · omega
      · exact hge
    rw [greatestPlace] at heq
    rw [bits, infinityBits, ← heq]
    simp only [leastFull] at *
    omega
  · rw [greatestPlace] at hgt
    rw [bits, infinityBits]
    simp only [leastFull] at *
    omega

end Placed

/-! ## Bits -/

theorem Canonical.bits_lt (hb : b.Canonical) : b.bits < infinityBits := by
  have hm := hb.m_lt
  have hmin := hb.q_ge
  have hmax := hb.q_le
  simp only [bits, infinityBits, leastFull] at *
  omega

/-- The bits that a number is given are those of the number. -/
theorem Canonical.parts_toFloat (hb : b.Canonical) : parts b.toFloat = .finite false b := by
  have hbits := toNat_toBits_toFloat b
  have hlt := hb.bits_lt
  rw [Nat.min_eq_left hlt.le] at hbits
  have hpositive : ¬ 0x8000000000000000 ≤ b.bits := not_le.mpr (hlt.trans (by decide))
  have hm := hb.m_lt
  have hmin := hb.q_ge
  have hmax := hb.q_le
  unfold parts
  simp only [hbits, hpositive, decide_false]
  rcases Nat.lt_or_ge b.m leastFull with hless | hge
  · have hq : b.q = -1074 := by
      by_contra hne
      exact absurd (hb.full (by omega)) (not_le.mpr hless)
    have hexponent : b.bits / leastFull % 2048 = 0 := by
      simp only [bits, leastFull] at *
      omega
    have hfraction : b.bits % leastFull = b.m := by
      simp only [bits, leastFull] at *
      omega
    rw [hexponent, hfraction, if_neg (by decide), if_pos rfl, ← hq]
  · have hexponent : ((b.bits / leastFull % 2048 : ℕ) : ℤ) = b.q + 1075 := by
      simp only [bits, leastFull] at *
      omega
    have hfraction : leastFull + b.bits % leastFull = b.m := by
      simp only [bits, leastFull] at *
      omega
    rw [if_neg (by omega), if_neg (by omega), hexponent, hfraction, Int.add_sub_cancel]

/-- Whatever is too great for a number is infinite. -/
theorem parts_toFloat_of_le (h : infinityBits ≤ b.bits) : parts b.toFloat = .infinite false := by
  have hbits := toNat_toBits_toFloat b
  rw [Nat.min_eq_right h] at hbits
  unfold parts
  simp only [hbits, infinityBits, leastFull]
  rfl

end Binary

/-! ## Decimals -/

/-- The floating point number nearest to a rational number that is not negative. From halfway
    between the greatest number and the next power of two on it is infinity. -/
structure IsNearest (v : ℚ) (x : Float) : Prop where
  finite : v < Binary.greatest.highEnd → ∃ b : Binary, parts x = .finite false b ∧ b.Nearest v
  infinite : Binary.greatest.highEnd ≤ v → parts x = .infinite false

theorem IsNearest.unique {v : ℚ} {x y : Float} (hx : IsNearest v x) (hy : IsNearest v y) :
    x = y := by
  rcases lt_or_ge v Binary.greatest.highEnd with hlt | hge
  · obtain ⟨b, hb, hnearest⟩ := hx.finite hlt
    obtain ⟨c, hc, hnearest'⟩ := hy.finite hlt
    obtain rfl := hnearest.unique hnearest'
    exact parts_injective (hb.trans hc.symm) (by simp [hb])
  · have hinfinite := hx.infinite hge
    exact parts_injective (hinfinite.trans (hy.infinite hge).symm) (by simp [hinfinite])

theorem Binary.Placed.isNearest {b : Binary} {v : ℚ} (h : b.Placed v) :
    IsNearest v b.toFloat := by
  refine ⟨fun hlt => ?_, fun hge => ?_⟩
  · obtain ⟨b', hb', hrounds, hbits⟩ := h.exists_rounds hlt
    have hfloat : b.toFloat = b'.toFloat := by
      rw [Binary.toFloat, Binary.toFloat, hbits]
    exact ⟨b', (congrArg parts hfloat).trans hb'.parts_toFloat, hrounds.nearest hb'⟩
  · exact Binary.parts_toFloat_of_le (h.infinityBits_le hge)

/-- Every decimal is read as the number nearest to it. -/
theorem Scaled.isNearest (d : Scaled) : IsNearest d.value d.nearest := by
  rw [d.value_eq_div, nearest]
  exact (Binary.placed_ofRatio (Nat.pow_pos (by decide))).isNearest

end Respell.Decimal
