-- SUMMARY: The layouts of a decimal are numerals with its value.
import Respell.Decimal.Layout
import Respell.Proofs.Decimal.Bits
import Respell.Proofs.Decimal.Rounding
import Respell.Proofs.Lexing.Writing

/-!
# Layouts keep the value

The digits of a decimal lose the zeros at their end, the point moves to where its layout wants it,
and zeros are put in again. None of this changes the value. What is laid out is a numeral, which the
exponent follows if there is one.
-/

namespace Respell

open Decimal (ofDigits zeros Scaled Scientific)

/-- The decimal that a numeral stands for. -/
def Numeral.scaled (n : Numeral) : Scaled :=
  ⟨ofDigits (n.whole ++ n.fraction.getD []), -((n.fraction.getD []).length : Int)⟩

/-- A numeral is a number of the language. -/
theorem Numeral.spells (n : Numeral) (table : Table) :
    Lexer.Spells table (.number n.scaled.nearest) n.chars := by
  obtain ⟨whole, fraction, hwhole, hfraction⟩ := n
  cases fraction with
  | none => exact .whole hwhole
  | some fraction => exact .decimal hwhole (hfraction fraction rfl)

/-- The one digit zero. -/
def Numeral.zero : Numeral :=
  ⟨['0'], none, ⟨by simp, by simp⟩, by simp⟩

/-- A numeral starts with a digit. -/
theorem Numeral.exists_cons (n : Numeral) : ∃ c cs, n.chars = c :: cs ∧ c.isDigit = true := by
  obtain ⟨c, cs, hwhole, hc⟩ := n.isDigits.exists_cons
  unfold Numeral.chars
  split
  · exact ⟨c, _, by rw [hwhole, List.cons_append], hc⟩
  · exact ⟨c, cs, hwhole, hc⟩

theorem Numeral.head?_chars_append_ne (n : Numeral) (rest : List Char) {c : Char}
    (hc : c.isDigit = false) : (n.chars ++ rest).head? ≠ some c := by
  obtain ⟨d, ds, hchars, hd⟩ := n.exists_cons
  rw [hchars]
  rintro ⟨⟩
  exact Bool.false_ne_true (hc.symm.trans hd)

/-- A zero stands in front only as the one digit before the point, and digits follow a point. -/
structure Numeral.Tidy (n : Numeral) : Prop where
  whole : n.whole.head? = some '0' → n.whole = ['0']
  fraction : n.fraction ≠ some []

namespace Decimal

/-! ## Digits -/

theorem ofDigits_append (a b : List Char) :
    ofDigits (a ++ b) = 10 ^ b.length * ofDigits a + ofDigits b :=
  calc ofDigits (a ++ b)
      = Nat.ofDigitChars 10 b (ofDigits a) := Nat.ofDigitChars_append 0
    _ = 10 ^ b.length * ofDigits a + ofDigits b := Nat.ofDigitChars_eq_ofDigitChars_zero

theorem ofDigits_zeros (n : Nat) : ofDigits (zeros n) = 0 :=
  calc ofDigits (zeros n)
      = 10 ^ n * 0 := Nat.ofDigitChars_replicate_zero
    _ = 0 := Nat.mul_zero _

theorem ofDigits_toDigits (n : Nat) : ofDigits (Nat.toDigits 10 n) = n :=
  Nat.ofDigitChars_ten_toDigits

theorem isDigit_of_mem_toDigits {n : Nat} : ∀ c ∈ Nat.toDigits 10 n, c.isDigit = true :=
  fun _ hc => Nat.isDigit_of_mem_toDigits (by decide) (by decide) hc

theorem isDigit_of_mem_zeros {n : Nat} : ∀ c ∈ zeros n, c.isDigit = true := by
  intro c hc
  rw [List.eq_of_mem_replicate hc]
  decide

/-- The first digit of a number other than zero is not zero. -/
theorem head?_toDigits {n : Nat} (hn : 0 < n) : (Nat.toDigits 10 n).head? ≠ some '0' := by
  induction n using Nat.strongRecOn with
  | ind n ih =>
    rw [Nat.toDigits_eq_if (by decide)]
    split
    · next hlt =>
      have hdigit : ∀ k < 10, 0 < k → Nat.digitChar k ≠ '0' := by decide
      simpa using hdigit n hlt hn
    · next hge =>
      have hdiv : 0 < n / 10 := by omega
      obtain ⟨c, cs, hcs⟩ :=
        List.exists_cons_of_ne_nil (Nat.toDigits_ne_nil (n := n / 10) (b := 10))
      have hhead := ih (n / 10) (by omega) hdiv
      rw [hcs] at hhead ⊢
      simpa using hhead

/-! ## Scientific form -/

/-- The rational number that a decimal in scientific form is. -/
def Scientific.value (s : Scientific) : ℚ :=
  ofDigits s.digits * 10 ^ (s.exponent + 1 - s.digits.length)

/-- There are digits, and the first is not zero. -/
structure Scientific.Proper (s : Scientific) : Prop where
  ne_nil : s.digits ≠ []
  isDigit : ∀ c ∈ s.digits, c.isDigit = true
  head_ne : s.digits.head? ≠ some '0'

namespace Scaled

/-- The product of a decimal and a power of ten. -/
def shift (d : Scaled) (e : Int) : Scaled :=
  ⟨d.coefficient, d.exponent + e⟩

theorem value_shift (d : Scaled) (e : Int) : (d.shift e).value = d.value * 10 ^ e := by
  rw [shift, value, value, zpow_add₀ (by norm_num), mul_assoc]

@[simp] theorem shift_zero (d : Scaled) : d.shift 0 = d := by
  simp [shift]

/-- What the digits of the scientific form lack are zeros at the end. -/
theorem exists_zeros (d : Scaled) :
    ∃ k, Nat.toDigits 10 d.coefficient = d.scientific.digits ++ zeros k := by
  simp only [scientific]
  generalize Nat.toDigits 10 d.coefficient = ds
  refine ⟨(ds.reverse.takeWhile (· == '0')).length, ?_⟩
  have hzeros : zeros (ds.reverse.takeWhile (· == '0')).length =
      ds.reverse.takeWhile (· == '0') := by
    refine (List.eq_replicate_of_mem fun c hc => ?_).symm
    simpa using List.mem_takeWhile_imp hc
  calc ds
      = (ds.reverse.takeWhile (· == '0') ++ ds.reverse.dropWhile (· == '0')).reverse := by
        rw [List.takeWhile_append_dropWhile, List.reverse_reverse]
    _ = (ds.reverse.dropWhile (· == '0')).reverse ++ (ds.reverse.takeWhile (· == '0')).reverse :=
        List.reverse_append
    _ = _ := by rw [← hzeros, zeros, List.reverse_replicate, List.length_replicate, zeros]

theorem value_scientific (d : Scaled) : d.scientific.value = d.value := by
  obtain ⟨k, hk⟩ := d.exists_zeros
  have hcoefficient := ofDigits_toDigits d.coefficient
  rw [hk, ofDigits_append, ofDigits_zeros, Nat.add_zero, zeros, List.length_replicate]
    at hcoefficient
  have hexponent : d.scientific.exponent + 1 - d.scientific.digits.length = d.exponent + k := by
    have hlength := congrArg List.length hk
    rw [List.length_append, zeros, List.length_replicate] at hlength
    show d.exponent + (Nat.toDigits 10 d.coefficient).length - 1 + 1 - _ = _
    omega
  rw [Scientific.value, hexponent, value, zpow_add₀ (by norm_num), zpow_natCast, ← hcoefficient]
  push_cast
  ring

theorem scientific_proper {d : Scaled} (h : 0 < d.coefficient) : d.scientific.Proper := by
  obtain ⟨k, hk⟩ := d.exists_zeros
  have hdigits := isDigit_of_mem_toDigits (n := d.coefficient)
  have hhead := head?_toDigits h
  have hcoefficient := ofDigits_toDigits d.coefficient
  rw [hk] at hdigits hhead hcoefficient
  have hnil : d.scientific.digits ≠ [] := by
    intro hnil
    rw [hnil, List.nil_append, ofDigits_zeros] at hcoefficient
    omega
  refine ⟨hnil, fun c hc => hdigits c (List.mem_append_left _ hc), ?_⟩
  rwa [List.head?_append_of_ne_nil _ hnil] at hhead

end Scaled

/-! ## Layouts -/

section Layouts

variable {s : Scientific}

/-- Zeros around the digits do not matter, if the point moves with those behind. -/
theorem value_of_zeros {n : Numeral} {k l : Nat}
    (h : n.whole ++ n.fraction.getD [] = zeros k ++ (s.digits ++ zeros l))
    (hpoint : (l : Int) - (n.fraction.getD []).length = s.exponent + 1 - s.digits.length) :
    n.scaled.value = s.value := by
  have hdigits : ofDigits (n.whole ++ n.fraction.getD []) = 10 ^ l * ofDigits s.digits := by
    rw [h, ofDigits_append, ofDigits_append, ofDigits_zeros, ofDigits_zeros, zeros,
      List.length_replicate]
    omega
  rw [Numeral.scaled, Scaled.value, hdigits, Scientific.value, ← hpoint, sub_eq_add_neg,
    zpow_add₀ (by norm_num), zpow_natCast]
  push_cast
  ring

/-- Without an exponent, a decimal is laid out as a numeral with its value. -/
theorem exists_positionalLayout (hs : s.Proper) (pointZero : Bool) :
    ∃ n : Numeral, positionalLayout pointZero s = n.chars ∧ n.scaled.value = s.value ∧ n.Tidy := by
  have htidy : ∀ {ds : List Char}, ds ≠ [] → ds <+: s.digits → ds.head? ≠ some '0' := by
    rintro ds hds ⟨rest, hrest⟩
    have hhead := hs.head_ne
    rwa [← hrest, List.head?_append_of_ne_nil _ hds] at hhead
  unfold positionalLayout
  simp only
  split
  · next hwhole =>
    -- All digits stand before the point, and zeros fill the places up to it.
    have hdigits : Lexer.IsDigits (s.digits ++ zeros (s.exponent + 1 - s.digits.length).toNat) := by
      refine ⟨by simp [hs.ne_nil], ?_⟩
      rw [List.forall_mem_append]
      exact ⟨hs.isDigit, isDigit_of_mem_zeros⟩
    have hhead : (s.digits ++ zeros (s.exponent + 1 - s.digits.length).toNat).head? ≠
        some '0' := by
      rw [List.head?_append_of_ne_nil _ hs.ne_nil]
      exact hs.head_ne
    cases pointZero with
    | false =>
      refine ⟨⟨_, none, hdigits, nofun⟩, by simp [Numeral.chars], ?_,
        fun h => absurd h hhead, by simp⟩
      refine value_of_zeros (k := 0) (by simp [zeros]; rfl) ?_
      simp only [Option.getD_none, List.length_nil]
      omega
    | true =>
      refine ⟨⟨_, some ['0'], hdigits, ?_⟩, by simp [Numeral.chars], ?_,
        fun h => absurd h hhead, by simp⟩
      · rintro cs ⟨⟩
        simp
      · refine value_of_zeros (k := 0) (l := (s.exponent + 1 - s.digits.length).toNat + 1) ?_ ?_
        · simp [zeros, List.replicate_succ']
        · simp only [Option.getD_some, List.length_singleton]
          omega
  · next hfraction =>
    split
    · next hpoint =>
      have hne : s.digits.take (s.exponent + 1).toNat ≠ [] := by
        simp [hs.ne_nil]
        omega
      refine ⟨⟨s.digits.take (s.exponent + 1).toNat, some (s.digits.drop (s.exponent + 1).toNat),
        ⟨hne, fun c hc => hs.isDigit c (List.mem_of_mem_take hc)⟩, ?_⟩, rfl, ?_,
        fun h => absurd h (htidy hne (List.take_prefix _ _)), ?_⟩
      · rintro cs ⟨⟩
        exact fun c hc => hs.isDigit c (List.mem_of_mem_drop hc)
      · refine value_of_zeros (k := 0) (l := 0) (by simp [zeros]) ?_
        simp only [Option.getD_some, List.length_drop]
        omega
      · simp only [ne_eq, Option.some.injEq, List.drop_eq_nil_iff]
        omega
    · next hpoint =>
      refine ⟨⟨['0'], some (zeros (-(s.exponent + 1)).toNat ++ s.digits), ⟨by simp, by simp⟩, ?_⟩,
        rfl, ?_, fun _ => rfl, by simp [hs.ne_nil]⟩
      · rintro cs ⟨⟩
        rw [List.forall_mem_append]
        exact ⟨isDigit_of_mem_zeros, hs.isDigit⟩
      · refine value_of_zeros (k := (-(s.exponent + 1)).toNat + 1) (l := 0) ?_ ?_
        · simp [zeros, List.replicate_succ]
        · simp only [Option.getD_some, List.length_append, zeros, List.length_replicate]
          omega

/-- What follows a numeral in the layout with an exponent. -/
def exponentChars (e : Int) : List Char :=
  'e' :: (if e < 0 then '-' else '+') :: Nat.toDigits 10 e.natAbs

/-- With an exponent, a decimal is laid out as a numeral before it. -/
theorem exists_exponentLayout (hs : s.Proper) :
    ∃ n : Numeral, exponentLayout s = n.chars ++ exponentChars s.exponent ∧
      (n.scaled.shift s.exponent).value = s.value ∧ n.Tidy := by
  obtain ⟨c, cs, hdigits⟩ := List.exists_cons_of_ne_nil hs.ne_nil
  have hisDigit := hs.isDigit
  rw [hdigits, List.forall_mem_cons] at hisDigit
  have hvalue : s.value = ofDigits (c :: cs) * 10 ^ (-(cs.length : Int)) * 10 ^ s.exponent := by
    rw [Scientific.value, hdigits, mul_assoc, ← zpow_add₀ (by norm_num)]
    congr 2
    simp only [List.length_cons]
    omega
  have hwhole : Lexer.IsDigits [c] := ⟨by simp, by simpa using hisDigit.1⟩
  simp only [Scaled.value_shift]
  have htidy : [c].head? = some '0' → [c] = ['0'] := by simp
  cases cs with
  | nil =>
    refine ⟨⟨[c], none, hwhole, nofun⟩, ?_, hvalue.symm, htidy, by simp⟩
    simp [exponentLayout, exponentChars, hdigits, Numeral.chars]
  | cons d ds =>
    refine ⟨⟨[c], some (d :: ds), hwhole, ?_⟩, ?_, hvalue.symm, htidy, by simp⟩
    · rintro _ ⟨⟩
      exact hisDigit.2
    · simp [exponentLayout, exponentChars, hdigits, Numeral.chars]

/-- A decimal is laid out as a numeral and the exponent, unless it is left out. -/
theorem Style.exists_layout (style : Style) (hs : s.Proper) :
    ∃ (n : Numeral) (e : Option Int), style.layout s = n.chars ++ e.elim [] exponentChars ∧
      (n.scaled.shift (e.getD 0)).value = s.value ∧ n.Tidy ∧
      e = if style.positional s.exponent then none else some s.exponent := by
  unfold Style.layout
  split
  · obtain ⟨n, hn, hvalue, htidy⟩ := exists_positionalLayout hs style.pointZero
    exact ⟨n, none, by simp [hn], by simp [hvalue], htidy, rfl⟩
  · obtain ⟨n, hn, hvalue, htidy⟩ := exists_exponentLayout hs
    exact ⟨n, some s.exponent, hn, hvalue, htidy, rfl⟩

/-! ## The value can be told from the layout -/

/-- Nothing that could belong to a numeral stands in front. -/
structure EndsNumeral (rest : List Char) : Prop where
  digit : Text.Stops Char.isDigit rest
  point : Text.Stops (· == '.') rest

theorem endsNumeral_nil : EndsNumeral [] :=
  ⟨Text.stops_nil _, Text.stops_nil _⟩

theorem endsNumeral_append (e : Option Int) {rest : List Char} (h : EndsNumeral rest) :
    EndsNumeral (e.elim [] exponentChars ++ rest) := by
  cases e with
  | none => exact h
  | some e => exact ⟨Text.stops_cons.mpr (by decide), Text.stops_cons.mpr (by decide)⟩

theorem endsNumeral_exponent (e : Option Int) : EndsNumeral (e.elim [] exponentChars) := by
  simpa using endsNumeral_append e endsNumeral_nil

/-- A numeral and what follows it can be told apart. -/
theorem numeral_append_inj {n n' : Numeral} {rest rest' : List Char} (hr : EndsNumeral rest)
    (hr' : EndsNumeral rest') (h : n.chars ++ rest = n'.chars ++ rest') :
    n.scaled = n'.scaled ∧ rest = rest' := by
  obtain ⟨whole, fraction, hwhole, hfraction⟩ := n
  obtain ⟨whole', fraction', hwhole', hfraction'⟩ := n'
  have hpoint : ∀ cs, Text.Stops Char.isDigit ('.' :: cs) :=
    fun cs => Text.stops_cons.mpr (by decide)
  cases fraction with
  | none =>
    cases fraction' with
    | none =>
      obtain ⟨rfl, hrest⟩ := Text.append_inj_of_stops hwhole.2 hwhole'.2 hr.digit hr'.digit h
      exact ⟨rfl, hrest⟩
    | some cs' =>
      simp only [Numeral.chars, List.append_assoc, List.cons_append] at h
      obtain ⟨-, hrest⟩ := Text.append_inj_of_stops hwhole.2 hwhole'.2 hr.digit (hpoint _) h
      exact absurd (hrest ▸ hr.point) (by simp [Text.stops_cons])
  | some cs =>
    simp only [Numeral.chars, List.append_assoc, List.cons_append] at h
    cases fraction' with
    | none =>
      obtain ⟨-, hrest⟩ := Text.append_inj_of_stops hwhole.2 hwhole'.2 (hpoint _) hr'.digit h
      exact absurd (hrest ▸ hr'.point) (by simp [Text.stops_cons])
    | some cs' =>
      simp only [List.append_assoc, List.cons_append] at h
      obtain ⟨rfl, htail⟩ := Text.append_inj_of_stops hwhole.2 hwhole'.2 (hpoint _) (hpoint _) h
      obtain ⟨rfl, hrest⟩ := Text.append_inj_of_stops (hfraction cs rfl) (hfraction' cs' rfl)
        hr.digit hr'.digit (List.cons.inj htail).2
      exact ⟨rfl, hrest⟩

theorem exponentChars_inj {e e' : Int} (h : exponentChars e = exponentChars e') : e = e' := by
  simp only [exponentChars, List.cons.injEq, true_and] at h
  have habs : e.natAbs = e'.natAbs := by
    rw [← ofDigits_toDigits e.natAbs, h.2, ofDigits_toDigits]
  have hsign : e < 0 ↔ e' < 0 := by
    have hsigns := h.1
    grind
  omega

theorem exponent_inj {e e' : Option Int}
    (h : e.elim [] exponentChars = e'.elim [] exponentChars) : e = e' := by
  cases e <;> cases e'
  · rfl
  · cases h
  · cases h
  · rw [exponentChars_inj h]

end Layouts

/-! ## Signs -/

/-- How a sign is written. -/
def signChars (negative : Bool) : List Char :=
  if negative then ['-'] else []

/-- A number other than zero is its sign and the layout of its shortest digits. -/
theorem Style.toList_write (style : Style) {x : Float} {negative : Bool} {b : Binary}
    (h : parts x = .finite negative b) (hm : 0 < b.m) :
    (style.write x).toList =
      signChars negative ++ style.layout (b.shortest style.tie).scientific := by
  rw [Style.write, h]
  simp only [if_neg hm.ne']
  cases negative <;> simp [signChars]

theorem Style.write_zero {style : Style} (hsign : style.signedZero = false)
    (hpoint : style.pointZero = false) {x : Float} {negative : Bool} {b : Binary}
    (h : parts x = .finite negative b) (hm : b.m = 0) : style.write x = "0" := by
  rw [Style.write, h]
  simp [hm, hsign, hpoint]

/-- A number other than zero is written as its sign, a numeral and the exponent, unless that is left
    out, and these read back as the number. -/
theorem Style.exists_write (style : Style) {x : Float} {negative : Bool} {b : Binary}
    (h : parts x = .finite negative b) (hm : 0 < b.m) :
    ∃ (n : Numeral) (e : Option Int),
      (style.write x).toList = signChars negative ++ (n.chars ++ e.elim [] exponentChars) ∧
      x = withSign negative (n.scaled.shift (e.getD 0)).nearest ∧ n.Tidy ∧
      e = if style.positional (b.shortest style.tie).scientific.exponent then none
        else some (b.shortest style.tie).scientific.exponent := by
  have hrounds := Binary.rounds_shortest hm style.tie
  have hproper := Scaled.scientific_proper (Binary.coefficient_pos hm hrounds)
  obtain ⟨n, e, hlayout, hvalue, htidy, he⟩ := style.exists_layout hproper
  have hnearest : (n.scaled.shift (e.getD 0)).nearest = b.toFloat := by
    refine Scaled.nearest_of_rounds (canonical_of_parts h) hm ?_
    rw [hvalue, Scaled.value_scientific]
    exact hrounds
  refine ⟨n, e, ?_, ?_, htidy, he⟩
  · rw [style.toList_write h hm, hlayout]
  · rw [hnearest]
    exact (withSign_toFloat_of_parts h).symm

end Decimal

end Respell
