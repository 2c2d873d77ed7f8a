-- SUMMARY: A floating point number is given by its parts, and its negative differs in the sign.
import Mathlib
import Respell.Decimal.Nearest

/-!
# Bits and parts

The parts of a number determine its bits, and its bits determine the number. Putting the magnitude
together again gives back a positive number, and its negative if the sign says so.
-/

namespace Respell.Decimal

/-- The bit of the sign. -/
def signBit : Nat := 0x8000000000000000

/-- The part of the bits that tells the sign. -/
def signBits (negative : Bool) : Nat :=
  if negative then signBit else 0

theorem toBits_of_parts_finite {x : Float} {negative : Bool} {b : Binary}
    (h : parts x = .finite negative b) :
    x.toBits.toNat = signBits negative + b.bits ∧ b.bits < Binary.infinityBits := by
  have hx := x.toBits.toNat_lt
  unfold parts at h
  simp only at h
  split at h
  · split at h <;> cases h
  · split at h
    · injection h with hs hb
      subst hb hs
      simp only [signBits, signBit, Binary.bits, Binary.infinityBits, leastFull,
        decide_eq_true_eq] at *
      split <;> omega
    · injection h with hs hb
      subst hb hs
      simp only [signBits, signBit, Binary.bits, Binary.infinityBits, leastFull,
        decide_eq_true_eq] at *
      split <;> omega

theorem toBits_of_parts_infinite {x : Float} {negative : Bool}
    (h : parts x = .infinite negative) :
    x.toBits.toNat = signBits negative + Binary.infinityBits := by
  have hx := x.toBits.toNat_lt
  unfold parts at h
  simp only at h
  split at h
  · split at h
    · injection h with hs
      subst hs
      simp only [signBits, signBit, Binary.infinityBits, leastFull, decide_eq_true_eq] at *
      split <;> omega
    · cases h
  · split at h <;> cases h

theorem eq_of_toNat_toBits {x y : Float} (h : x.toBits.toNat = y.toBits.toNat) : x = y :=
  Float.toBits_inj.mp (UInt64.toNat.inj h)

/-- Apart from not-a-number, different numbers have different parts. -/
theorem parts_injective {x y : Float} (h : parts x = parts y) (hx : parts x ≠ .nan) : x = y := by
  refine eq_of_toNat_toBits ?_
  cases hp : parts x with
  | nan => exact absurd hp hx
  | infinite negative => rw [toBits_of_parts_infinite hp, toBits_of_parts_infinite (h ▸ hp)]
  | finite negative b =>
    rw [(toBits_of_parts_finite hp).1, (toBits_of_parts_finite (h ▸ hp)).1]

/-- A positive number is put together again from its magnitude. -/
theorem toFloat_of_parts {x : Float} {b : Binary} (h : parts x = .finite false b) :
    b.toFloat = x := by
  obtain ⟨hbits, hlt⟩ := toBits_of_parts_finite h
  rw [Binary.toFloat, Nat.min_eq_left hlt.le, bits_of_parts h, UInt64.ofNat_toNat,
    Float.ofBits_toBits]

/-- Without a significand a number is one of the two zeros. -/
theorem eq_zero_of_parts {x : Float} {negative : Bool} {b : Binary}
    (h : parts x = .finite negative b) (hm : b.m = 0) : x = if negative then -0 else 0 := by
  have hb : b = ⟨0, -1074⟩ := by
    unfold parts at h
    simp only at h
    split at h
    · split at h <;> cases h
    · split at h
      · injection h with _ hb
        subst hb
        exact congrArg (Binary.mk · (-1074)) hm
      · injection h with _ hb
        subst hb
        simp [leastFull] at hm
  subst hb
  refine parts_injective ?_ (by simp [h])
  rw [h]
  cases negative <;> decide

/-- The number, but zero without its sign. -/
def unsignedZero (x : Float) : Float :=
  if x = -0 then 0 else x

theorem unsignedZero_of_zero {x : Float} {negative : Bool} {b : Binary}
    (h : parts x = .finite negative b) (hm : b.m = 0) : unsignedZero x = 0 := by
  rw [eq_zero_of_parts h hm]
  cases negative <;> decide

theorem unsignedZero_of_pos {x : Float} {negative : Bool} {b : Binary}
    (h : parts x = .finite negative b) (hm : 0 < b.m) : unsignedZero x = x := by
  refine if_neg ?_
  rintro rfl
  cases h
  exact absurd hm (by decide)

/-! ## Negatives -/

open Float.Model (Format)
open Float.Model.UnpackedFloat

theorem toNat_unpackExponent (w : BitVec 64) :
    (@unpackExponent Format.binary64 w).toNat = w.toNat / 2 ^ 52 % 2 ^ 11 := by
  rw [unpackExponent_def, BitVec.extractLsb'_toNat, Nat.shiftRight_eq_div_pow]

theorem toNat_unpackMantissa (w : BitVec 64) :
    (@unpackMantissa Format.binary64 w).toNat = w.toNat % 2 ^ 52 := by
  rw [unpackMantissa_def, BitVec.extractLsb'_toNat, Nat.shiftRight_zero]

theorem toNat_unpackSign (w : BitVec 64) :
    (@unpackSign Format.binary64 w).toNat = w.toNat / 2 ^ 63 % 2 := by
  rw [unpackSign_def, BitVec.extractLsb'_toNat, Nat.shiftRight_eq_div_pow]
  rfl

theorem toBitVec_toBits_neg (x : Float) : (-x).toBits.toBitVec =
    (unpack Format.binary64 x.toBits.toBitVec).neg.pack Format.binary64 := rfl

theorem toBitVec_toBits_ofBits (w : UInt64) : (Float.ofBits w).toBits.toBitVec =
    (unpack Format.binary64 w.toBitVec).pack Format.binary64 := rfl

/-- Bits up to those of infinity are no not-a-number, and so they are kept. -/
theorem pack_unpack_of_le {w : UInt64} (h : w.toNat ≤ Binary.infinityBits) :
    (unpack Format.binary64 w.toBitVec).pack Format.binary64 = w.toBitVec := by
  have hnan : @isNaNBits Format.binary64 w.toBitVec = false := by
    rw [isNaNBits, decide_eq_false_iff_not]
    rintro ⟨hexponent, hmantissa⟩
    refine hmantissa (BitVec.eq_of_toNat_eq ?_)
    have hexponent := congrArg BitVec.toNat hexponent
    rw [toNat_unpackExponent, UInt64.toNat_toBitVec, show (-1#11).toNat = 2047 by decide]
      at hexponent
    rw [toNat_unpackMantissa, UInt64.toNat_toBitVec]
    rw [Binary.infinityBits] at h
    show _ = 0
    omega
  rw [pack_unpack, hnan, if_neg Bool.false_ne_true]

theorem toBits_ofBits_of_le {w : UInt64} (h : w.toNat ≤ Binary.infinityBits) :
    (Float.ofBits w).toBits = w :=
  UInt64.toBitVec_inj.mp ((toBitVec_toBits_ofBits w).trans (pack_unpack_of_le h))

theorem toNat_toBits_toFloat (b : Binary) :
    b.toFloat.toBits.toNat = min b.bits Binary.infinityBits := by
  have hle := Nat.min_le_right b.bits Binary.infinityBits
  have hword : (UInt64.ofNat (min b.bits Binary.infinityBits)).toNat =
      min b.bits Binary.infinityBits :=
    UInt64.toNat_ofNat_of_lt' (Nat.lt_of_le_of_lt hle (by decide))
  rw [Binary.toFloat, toBits_ofBits_of_le (hword.trans_le hle), hword]

/-- The bit of the sign is all that a number and its negative differ in. -/
theorem unpack_of_signBit {w w' : BitVec 64} (hw : w.toNat < signBit)
    (h : w'.toNat = w.toNat + signBit) :
    unpack Format.binary64 w' = (unpack Format.binary64 w).neg := by
  have hexponent : @unpackExponent Format.binary64 w' = @unpackExponent Format.binary64 w := by
    apply BitVec.eq_of_toNat_eq
    rw [toNat_unpackExponent, toNat_unpackExponent, h, signBit]
    omega
  have hmantissa : @unpackMantissa Format.binary64 w' = @unpackMantissa Format.binary64 w := by
    apply BitVec.eq_of_toNat_eq
    rw [toNat_unpackMantissa, toNat_unpackMantissa, h, signBit]
    omega
  have hsign : @unpackSign Format.binary64 w = 0#1 := by
    apply BitVec.eq_of_toNat_eq
    rw [toNat_unpackSign]
    rw [signBit] at hw
    show _ = 0
    omega
  have hsign' : @unpackSign Format.binary64 w' = 1#1 := by
    apply BitVec.eq_of_toNat_eq
    rw [toNat_unpackSign, h]
    rw [signBit] at *
    show _ = 1
    omega
  unfold unpack
  simp only [hexponent, hmantissa, hsign, hsign']
  split
  · split <;> rfl
  · split
    · split <;> rfl
    · rfl

/-- The negative of a number is put together again from the magnitude of the number. -/
theorem neg_toFloat_of_parts {x : Float} {b : Binary} (h : parts x = .finite true b) :
    -b.toFloat = x := by
  obtain ⟨hbits, hlt⟩ := toBits_of_parts_finite h
  have hword : (UInt64.ofNat b.bits).toNat = b.bits :=
    UInt64.toNat_ofNat_of_lt' (hlt.trans (by decide))
  have hbelow : (UInt64.ofNat b.bits).toBitVec.toNat < signBit := by
    rw [UInt64.toNat_toBitVec, hword]
    exact hlt.trans (by decide)
  have habove : x.toBits.toBitVec.toNat = (UInt64.ofNat b.bits).toBitVec.toNat + signBit := by
    rw [UInt64.toNat_toBitVec, UInt64.toNat_toBitVec, hword, Nat.add_comm]
    exact hbits
  have hpack := pack_unpack_of_le (hword.trans_le hlt.le)
  refine Float.toBits_inj.mp (UInt64.toBitVec_inj.mp ?_)
  rw [Binary.toFloat, Nat.min_eq_left hlt.le, toBitVec_toBits_neg, toBitVec_toBits_ofBits, hpack,
    ← unpack_of_signBit hbelow habove]
  exact pack_unpack_of_valid x.toModel.valid

/-- The number, or its negative. -/
def withSign (negative : Bool) (x : Float) : Float :=
  if negative then -x else x

/-- A number is put together again from its sign and its magnitude. -/
theorem withSign_toFloat_of_parts {x : Float} {negative : Bool} {b : Binary}
    (h : parts x = .finite negative b) : withSign negative b.toFloat = x := by
  cases negative with
  | false => exact toFloat_of_parts h
  | true => exact neg_toFloat_of_parts h

/-! ## Kinds of numbers -/

theorem isNaN_unpack (w : BitVec 64) :
    (unpack Format.binary64 w).isNaN = @isNaNBits Format.binary64 w := by
  unfold isNaNBits
  fun_cases unpack <;> grind [isNaN]

theorem isNaN_iff_parts {x : Float} : x.isNaN = true ↔ parts x = .nan := by
  have hmodel : x.isNaN = @isNaNBits Format.binary64 x.toBits.toBitVec :=
    isNaN_unpack x.toBits.toBitVec
  have hexponent := toNat_unpackExponent x.toBits.toBitVec
  have hmantissa := toNat_unpackMantissa x.toBits.toBitVec
  rw [hmodel, isNaNBits, decide_eq_true_iff, ← BitVec.toNat_inj, ne_eq, ← BitVec.toNat_inj,
    hexponent, hmantissa]
  change x.toBits.toNat / leastFull % 2048 = 2047 ∧ x.toBits.toNat % leastFull ≠ 0 ↔ _
  grind [parts]

theorem isFinite_unpack (w : BitVec 64) : (unpack Format.binary64 w).isFinite =
    decide (@unpackExponent Format.binary64 w ≠ -1#11) := by
  fun_cases unpack <;> grind [isFinite]

theorem isFinite_iff_parts {x : Float} :
    x.isFinite = true ↔ ∃ negative b, parts x = .finite negative b := by
  have hmodel : x.isFinite = decide (@unpackExponent Format.binary64 x.toBits.toBitVec ≠ -1#11) :=
    isFinite_unpack x.toBits.toBitVec
  have hexponent := toNat_unpackExponent x.toBits.toBitVec
  rw [hmodel, decide_eq_true_iff, ne_eq, ← BitVec.toNat_inj, hexponent]
  change x.toBits.toNat / leastFull % 2048 ≠ 2047 ↔ _
  unfold parts
  simp only
  split
  · next h => split <;> simp [h]
  · next h => split <;> simp [h]

end Respell.Decimal
