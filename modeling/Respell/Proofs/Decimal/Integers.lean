-- SUMMARY: An integer of at most 53 bits is written as its digits.
import Respell.Proofs.Decimal.Layout

/-!
# Integers

Between the halves around an integer of at most 53 bits there is no other integer. The search for
the shortest decimal meets the integer itself before it tries a fraction, so what it finds is the
integer, and the zeros that its digits lack are put in again by the layout.
-/

namespace Respell.Decimal

/-! ## Digits and zeros -/

theorem toDigits_mul_ten {n : Nat} (hn : 0 < n) :
    Nat.toDigits 10 (n * 10) = Nat.toDigits 10 n ++ ['0'] := by
  rw [Nat.toDigits_eq_if (by decide), if_neg (by omega), Nat.mul_div_cancel _ (by decide),
    Nat.mul_mod_left]
  rfl

theorem toDigits_mul_pow {n : Nat} (hn : 0 < n) (k : Nat) :
    Nat.toDigits 10 (n * 10 ^ k) = Nat.toDigits 10 n ++ zeros k := by
  induction k with
  | zero => simp [zeros]
  | succ k ih =>
    have hpos : 0 < n * 10 ^ k := by positivity
    rw [pow_succ, ← mul_assoc, toDigits_mul_ten hpos, ih, zeros, zeros, List.replicate_succ',
      List.append_assoc]

theorem digitCount_pos (n : Nat) : 0 < digitCount n :=
  Nat.length_toDigits_pos

theorem digitCount_le {n : Nat} (hn : n < 2 * leastFull) : digitCount n ≤ 16 := by
  refine (Nat.length_toDigits_le_iff (by decide) (by decide)).mpr (hn.trans ?_)
  decide

namespace Binary

variable {b : Binary} {n : ℕ}

/-! ## Which integers a number is near to -/

theorem pos_of_value_eq (hm : 0 < b.m) (hvalue : b.value = n) : 0 < n := by
  have hpos := rounds_value.pos hm
  rw [hvalue] at hpos
  exact_mod_cast hpos

theorem q_nonpos (hb : b.Canonical) (hvalue : b.value = n) (hn : n < 2 * leastFull) : b.q ≤ 0 := by
  by_contra hq
  have hfull : (leastFull : ℚ) ≤ b.m := by exact_mod_cast hb.full (by omega)
  have htwo : (2 : ℚ) ≤ 2 ^ b.q := by
    calc (2 : ℚ) = 2 ^ (1 : ℤ) := (zpow_one 2).symm
      _ ≤ 2 ^ b.q := zpow_le_zpow_right₀ (by norm_num) (by omega)
  have hlarge : (2 * leastFull : ℚ) ≤ b.value := by
    rw [value, mul_comm]
    exact mul_le_mul hfull htwo (by norm_num) (by positivity)
  rw [hvalue] at hlarge
  exact absurd hn (not_lt.mpr (by exact_mod_cast hlarge))

/-- Without a factor of two, no other integer lies between the halves. -/
theorem Rounds.eq_of_nat {k : ℕ} (hq : b.q ≤ 0) (hvalue : b.value = n) (h : b.Rounds k) :
    k = n := by
  have hunit : (2 : ℚ) ^ b.q ≤ 1 := by
    calc (2 : ℚ) ^ b.q ≤ 2 ^ (0 : ℤ) := zpow_le_zpow_right₀ (by norm_num) hq
      _ = 1 := zpow_zero 2
  have hlow := b.lowEnd_ge.trans h.lowEnd_le
  have hhigh := h.le_highEnd
  rw [value] at hvalue
  rw [sub_mul, hvalue] at hlow
  rw [highEnd, add_mul, hvalue] at hhigh
  have hlt : (k : ℚ) < n + 1 := by linarith
  have hgt : (n : ℚ) < k + 1 := by linarith
  have hlt' : k < n + 1 := by exact_mod_cast hlt
  have hgt' : n < k + 1 := by exact_mod_cast hgt
  omega

theorem ratio_zero_pos (b : Binary) : 0 < (b.ratio 0).2 :=
  Nat.mul_pos (Nat.pow_pos (by decide)) (Nat.pow_pos (by decide))

theorem value_eq_iff : b.value = n ↔ (b.ratio 0).1 = n * (b.ratio 0).2 := by
  have hpos : ((b.ratio 0).2 : ℚ) ≠ 0 := by exact_mod_cast b.ratio_zero_pos.ne'
  have hratio : b.value * (b.ratio 0).2 = (b.ratio 0).1 := by
    simp only [ratio, value, Int.neg_zero, Int.toNat_zero, Nat.pow_eq, pow_zero, mul_one]
    push_cast
    rw [mul_assoc, two_zpow_mul_pow]
  rw [← mul_left_inj' hpos, hratio]
  exact_mod_cast Iff.rfl

theorem toNat?_eq_some_iff : b.toNat? = some n ↔ b.value = n := by
  have hpos := b.ratio_zero_pos
  rw [value_eq_iff, toNat?]
  constructor
  · intro h
    split at h
    · next hmod =>
      cases h
      exact (Nat.div_mul_cancel (Nat.dvd_of_mod_eq_zero hmod)).symm
    · cases h
  · intro h
    rw [h, Nat.mul_mod_left, if_pos rfl, Nat.mul_div_cancel _ hpos]

theorem scale_of_nat (hvalue : b.value = n) (hn : 0 < n) : b.scale = digitCount n := by
  have hpos := b.ratio_zero_pos
  rw [scale]
  simp only [value_eq_iff.mp hvalue]
  rw [if_pos (Nat.le_mul_of_pos_left _ hn), Nat.mul_div_cancel _ hpos]

/-! ## The shortest decimal of an integer -/

/-- An integer is its own neighbour on the grid of the integers. -/
theorem neighbour?_zero (hm : 0 < b.m) (hvalue : b.value = n) (tie : Tie) :
    (b.neighbour? tie 0).isSome = true := by
  have hlower : b.readsBack ⟨(b.ratio 0).1 / (b.ratio 0).2, 0⟩ = true := by
    rw [readsBack_iff hm, value_eq_iff.mp hvalue, Nat.mul_div_cancel _ b.ratio_zero_pos]
    have hinteger : Scaled.value ⟨n, 0⟩ = b.value := by simp [Scaled.value, hvalue]
    rw [hinteger]
    exact rounds_value
  unfold neighbour?
  simp only [hlower]
  split
  · split <;> rfl
  · rfl
  · contradiction
  · contradiction

/-- The shortest decimal is on the first grid with a hit. -/
theorem exists_neighbour?_eq_shortest {tie : Tie} {j : ℕ} (hj : j < 17)
    (h : (b.neighbour? tie (b.scale - (j + 1 : ℕ))).isSome = true) :
    ∃ i ≤ j, b.neighbour? tie (b.scale - (i + 1 : ℕ)) = some (b.shortest tie) := by
  unfold shortest
  simp only
  split
  · next d hd =>
    obtain ⟨before, i, after, hrange, hi, hbefore⟩ := List.findSome?_eq_some_iff.mp hd
    refine ⟨i, ?_, hi⟩
    -- The grids are tried in order, so a grid before the one with the hit has none.
    have hordered : (before ++ i :: after).Pairwise (· < ·) := hrange ▸ List.pairwise_lt_range
    have hmem : j ∈ before ++ i :: after := hrange ▸ List.mem_range.mpr hj
    rw [List.pairwise_append, List.pairwise_cons] at hordered
    rw [List.mem_append, List.mem_cons] at hmem
    obtain hmem | rfl | hmem := hmem
    · rw [hbefore j hmem] at h
      cases h
    · exact le_rfl
    · exact (hordered.2.1.1 j hmem).le
  · next hnone =>
    rw [List.findSome?_eq_none_iff.mp hnone j (List.mem_range.mpr hj)] at h
    cases h

/-- The shortest decimal of an integer is the integer, with some of the zeros at its end left to
    the exponent. -/
theorem shortest_of_nat (hb : b.Canonical) (hm : 0 < b.m) (hvalue : b.value = n)
    (hn : n < 2 * leastFull) (tie : Tie) :
    ∃ k : ℕ, (b.shortest tie).exponent = k ∧ (b.shortest tie).coefficient * 10 ^ k = n := by
  have hpos := pos_of_value_eq hm hvalue
  have hdigits := digitCount_le hn
  have hcount := digitCount_pos n
  -- The last grid without a fraction is that of the integers, and the integer itself is on it.
  have hhit : (b.neighbour? tie (b.scale - (digitCount n - 1 + 1 : ℕ))).isSome = true := by
    rw [scale_of_nat hvalue hpos, Nat.sub_add_cancel hcount, Int.sub_self]
    exact neighbour?_zero hm hvalue tie
  obtain ⟨i, hi, hshortest⟩ := exists_neighbour?_eq_shortest (by omega) hhit
  have hexponent : (b.shortest tie).exponent = (digitCount n - (i + 1) : ℕ) := by
    have hgrid := (readsBack_of_neighbour? hshortest).2
    rw [scale_of_nat hvalue hpos] at hgrid
    omega
  refine ⟨digitCount n - (i + 1), hexponent, ?_⟩
  refine Rounds.eq_of_nat (q_nonpos hb hvalue hn) hvalue ?_
  have hrounds := rounds_shortest hm tie
  rw [Scaled.value, hexponent, zpow_natCast] at hrounds
  exact_mod_cast hrounds

end Binary

/-! ## Layout -/

/-- Digits that stand for an integer are laid out as the integer. -/
theorem positionalLayout_of_nat {d : Scaled} {n k : ℕ} (hd : 0 < d.coefficient)
    (hexponent : d.exponent = k) (hn : d.coefficient * 10 ^ k = n) :
    positionalLayout false d.scientific = Nat.toDigits 10 n ∧
      d.scientific.exponent + 1 = digitCount n := by
  obtain ⟨l, hl⟩ := d.exists_zeros
  have hdigits : Nat.toDigits 10 n = d.scientific.digits ++ zeros (l + k) := by
    rw [← hn, toDigits_mul_pow hd, hl, List.append_assoc, zeros, zeros, zeros,
      List.replicate_append_replicate]
  have hcount : d.scientific.exponent + 1 = digitCount n := by
    have hlength : digitCount n = (Nat.toDigits 10 d.coefficient).length + k := by
      rw [digitCount, ← hn, toDigits_mul_pow hd, List.length_append, zeros, List.length_replicate]
    show d.exponent + (Nat.toDigits 10 d.coefficient).length - 1 + 1 = _
    omega
  refine ⟨?_, hcount⟩
  have hlength : digitCount n = d.scientific.digits.length + (l + k) := by
    rw [digitCount, hdigits, List.length_append, zeros, List.length_replicate]
  have hzeros : (d.scientific.exponent + 1 - d.scientific.digits.length).toNat = l + k := by
    omega
  rw [positionalLayout]
  simp only [hzeros]
  rw [if_pos (by omega), hdigits]
  simp

/-- A style that writes integers positionally and without a point writes them as their digits. -/
theorem Style.toList_write_of_nat {style : Style} {x : Float} {negative : Bool} {b : Binary}
    {n : ℕ} (hpoint : style.pointZero = false)
    (hpositional : ∀ e, 0 ≤ e → e < 16 → style.positional e = true)
    (h : parts x = .finite negative b) (hm : 0 < b.m) (hvalue : b.value = n)
    (hn : n < 2 * leastFull) :
    (style.write x).toList = signChars negative ++ Nat.toDigits 10 n := by
  obtain ⟨k, hexponent, hk⟩ := Binary.shortest_of_nat (canonical_of_parts h) hm hvalue hn style.tie
  have hcoefficient := Binary.coefficient_pos hm (Binary.rounds_shortest hm style.tie)
  obtain ⟨hlayout, hcount⟩ := positionalLayout_of_nat hcoefficient hexponent hk
  have hdigits := digitCount_le hn
  have hpos := digitCount_pos n
  rw [style.toList_write h hm, Style.layout, hpositional _ (by omega) (by omega), if_pos rfl,
    hpoint, hlayout]

end Respell.Decimal
