-- SUMMARY: What the text of a number denotes, and what stands in it.
import Respell.Value
import Respell.Proofs.Json.Reading

/-!
# The text of a number

In output a number is its shortest digits, laid out the way JavaScript prints numbers. Four layouts
are chosen by where the point falls among the digits. Whichever it is, no digit is lost, no zero
stands there that need not, and the text is a decimal of the same value.
-/

namespace Respell

namespace Decimal

/-! ## Digits -/

/-- Neither the first digit nor the last one is zero. -/
structure Scientific.Stripped (s : Scientific) : Prop extends s.Proper where
  last_ne : s.digits.getLast? ≠ some '0'

theorem toDigits_digit {c : Char} (hc : c.isDigit = true) :
    c.toNat - '0'.toNat < 10 ∧ Nat.toDigits 10 (c.toNat - '0'.toNat) = [c] := by
  have hall : ∀ n ∈ List.range' 48 10,
      n - '0'.toNat < 10 ∧ Nat.toDigits 10 (n - '0'.toNat) = [Char.ofNat n] := by decide
  have hdigit := hall _ (Text.toNat_mem_range_of_isDigit hc)
  rwa [c.ofNat_toNat] at hdigit

/-- Digits without a zero in front are those of the number that they stand for. -/
theorem toDigits_ofDigits {ds : List Char} (hne : ds ≠ []) (hdigit : ∀ c ∈ ds, c.isDigit = true)
    (hhead : ds.head? ≠ some '0') : Nat.toDigits 10 (ofDigits ds) = ds := by
  induction ds using List.reverseRecOn with
  | nil => exact absurd rfl hne
  | append_singleton ds c ih =>
    obtain ⟨hlt, hc⟩ := toDigits_digit (hdigit c (by simp))
    have hlast : ofDigits [c] = c.toNat - '0'.toNat := by simp [ofDigits]
    rw [ofDigits_append, hlast, List.length_singleton, pow_one]
    by_cases hds : ds = []
    · subst hds
      simpa [ofDigits] using hc
    · rw [List.head?_append_of_ne_nil _ hds] at hhead
      have hinit := ih hds (fun d hd => hdigit d (List.mem_append_left _ hd)) hhead
      have hpos : 0 < ofDigits ds := by
        refine Nat.pos_of_ne_zero fun hzero => hhead ?_
        rw [← hinit, hzero]
        rfl
      rw [← Nat.toDigits_append_toDigits (by decide) hpos hlt, hinit, hc]

theorem Scaled.scientific_stripped {d : Scaled} (h : 0 < d.coefficient) :
    d.scientific.Stripped := by
  refine ⟨scientific_proper h, ?_⟩
  have hstop := Text.stops_dropWhile (· == '0') (Nat.toDigits 10 d.coefficient).reverse
  rw [scientific, List.getLast?_reverse]
  intro hlast
  exact absurd (hstop '0' hlast) (by decide)

/-! ## Layouts whose cuts are tested -/

/-- A row of `n` zeros, unless `n` is negative. -/
def zeros? (n : Int) : Option (List Char) :=
  if 0 ≤ n then some (zeros n.toNat) else none

/-- The first `n` characters and the others, if there are so many. -/
def cut? (n : Int) (cs : List Char) : Option (List Char × List Char) :=
  if 0 ≤ n ∧ n ≤ cs.length then some (cs.splitAt n.toNat) else none

/-- The layout of a number by the number of digits and the place of the point. There is none if a
    cut does not fall among the digits or a row of zeros has a negative length. -/
def layout? (s : Scientific) : Option (List Char) := do
  let point := s.exponent + 1
  if s.digits.length ≤ point ∧ point ≤ 21 then
    return s.digits ++ (← zeros? (point - s.digits.length))
  else if 0 < point ∧ point ≤ 21 then
    let (whole, fraction) ← cut? point s.digits
    return whole ++ '.' :: fraction
  else if -6 < point ∧ point ≤ 0 then
    return '0' :: '.' :: ((← zeros? (-point)) ++ s.digits)
  else
    let (lead, rest) ← cut? 1 s.digits
    return lead ++ (if rest.isEmpty then [] else '.' :: rest) ++ exponentChars s.exponent

theorem zeros?_of_nonneg {n : Int} (h : 0 ≤ n) : zeros? n = some (zeros n.toNat) :=
  if_pos h

theorem cut?_of_le {n : Int} {cs : List Char} (h : 0 ≤ n) (hle : n ≤ cs.length) :
    cut? n cs = some (cs.take n.toNat, cs.drop n.toNat) := by
  rw [cut?, if_pos ⟨h, hle⟩, List.splitAt_eq]

/-- Every cut falls among the digits and no row of zeros has a negative length. -/
theorem layout?_eq {s : Scientific} (hs : s.digits ≠ []) :
    layout? s = some (numberStyle.layout s) := by
  have hpos := List.length_pos_iff.mpr hs
  unfold layout? Style.layout positionalLayout
  simp only [numberStyle_positional_iff, show numberStyle.pointZero = false from rfl]
  by_cases hwhole : (s.digits.length : Int) ≤ s.exponent + 1 ∧ s.exponent + 1 ≤ 21
  · rw [if_pos hwhole, if_pos (by omega), if_pos hwhole.1, zeros?_of_nonneg (by omega)]
    simp
  rw [if_neg hwhole]
  by_cases hinside : 0 < s.exponent + 1 ∧ s.exponent + 1 ≤ 21
  · rw [if_pos hinside, if_pos (by omega), if_neg (by omega), if_pos hinside.1,
      cut?_of_le (by omega) (by omega)]
    rfl
  rw [if_neg hinside]
  by_cases hbefore : -6 < s.exponent + 1 ∧ s.exponent + 1 ≤ 0
  · rw [if_pos hbefore, if_pos (by omega), if_neg (by omega), if_neg (by omega),
      zeros?_of_nonneg (by omega)]
    rfl
  · rw [if_neg hbefore, if_neg (by omega), cut?_of_le (by omega) (by omega)]
    simp [exponentLayout, exponentChars]

/-! ## Where a point stands -/

end Decimal

/-- No zero stands at the end of the digits after the point either. -/
structure Numeral.Bare (n : Numeral) : Prop extends n.Tidy where
  last : ∀ cs ∈ n.fraction, cs.getLast? ≠ some '0'

theorem Numeral.mem_point_iff (n : Numeral) : '.' ∈ n.chars ↔ n.fraction ≠ none := by
  have hwhole := Lexer.dot_not_mem_of_digits n.isDigits.2
  cases hfraction : n.fraction <;> simp [chars, hfraction, hwhole]

/-- A numeral has no letter in it. -/
theorem Numeral.letter_not_mem (n : Numeral) : 'e' ∉ n.chars := by
  have hletter : ∀ cs : List Char, (∀ c ∈ cs, c.isDigit = true) → 'e' ∉ cs := by
    intro cs hcs hmem
    exact absurd (hcs 'e' hmem) (by decide)
  have hwhole := hletter n.whole n.isDigits.2
  cases hfraction : n.fraction with
  | none => simpa [chars, hfraction] using hwhole
  | some cs => simp [chars, hfraction, hwhole, hletter cs (n.isDigit cs hfraction)]

theorem Numeral.Tidy.bare {n : Numeral} (h : n.Tidy)
    (hlast : '.' ∈ n.chars → n.chars.getLast? ≠ some '0') : n.Bare := by
  refine ⟨h, fun cs hcs => ?_⟩
  have hne : cs ≠ [] := by
    rintro rfl
    exact h.fraction hcs
  have hpoint := hlast (n.mem_point_iff.mpr (by rw [hcs]; simp))
  rwa [chars, hcs, List.getLast?_append_of_ne_nil _ (List.cons_ne_nil _ _),
    List.getLast?_cons_of_ne_nil hne] at hpoint

namespace Decimal

variable {s : Scientific}

theorem mem_point_positionalLayout (hs : s.Proper) :
    '.' ∈ positionalLayout false s ↔ s.exponent < s.digits.length - 1 := by
  have hdigits := Lexer.dot_not_mem_of_digits hs.isDigit
  have hzeros (n : Nat) := Lexer.dot_not_mem_of_digits (isDigit_of_mem_zeros (n := n))
  unfold positionalLayout
  simp only
  split
  · next h =>
    simp [hdigits, hzeros]
    omega
  · split <;> simp <;> omega

/-- The digits stand at the end, unless zeros fill the places up to the point. -/
theorem getLast?_positionalLayout (hs : s.Proper) (h : '.' ∈ positionalLayout false s) :
    (positionalLayout false s).getLast? = s.digits.getLast? := by
  have hlt := (mem_point_positionalLayout hs).mp h
  unfold positionalLayout
  simp only
  rw [if_neg (by omega)]
  split
  · have hdrop : s.digits.drop (s.exponent + 1).toNat ≠ [] := by
      rw [ne_eq, List.drop_eq_nil_iff]
      omega
    rw [List.getLast?_append_of_ne_nil _ (List.cons_ne_nil _ _),
      List.getLast?_cons_of_ne_nil hdrop, List.getLast?_drop, if_neg (by omega)]
  · rw [← List.cons_append, ← List.cons_append, List.getLast?_append_of_ne_nil _ hs.ne_nil]

/-- The digits of the layout with an exponent. -/
def significandChars (s : Scientific) : List Char :=
  s.digits.take 1 ++ if (s.digits.drop 1).isEmpty then [] else '.' :: s.digits.drop 1

theorem isEmpty_drop_one {ds : List Char} : (ds.drop 1).isEmpty = true ↔ ds.length ≤ 1 := by
  rw [List.isEmpty_iff, List.drop_eq_nil_iff]

theorem exponentLayout_eq (s : Scientific) :
    exponentLayout s = significandChars s ++ exponentChars s.exponent := by
  rw [exponentLayout, significandChars, exponentChars]

theorem mem_point_significandChars (hs : s.Proper) :
    '.' ∈ significandChars s ↔ 1 < s.digits.length := by
  have htake := Lexer.dot_not_mem_of_digits
    fun c (hc : c ∈ s.digits.take 1) => hs.isDigit c (List.mem_of_mem_take hc)
  simp only [significandChars, List.mem_append, or_iff_right htake, isEmpty_drop_one]
  split
  · next h => simpa using h
  · next h => simpa using h

theorem getLast?_significandChars (h : 1 < s.digits.length) :
    (significandChars s).getLast? = s.digits.getLast? := by
  have hdrop : s.digits.drop 1 ≠ [] := by
    rw [ne_eq, List.drop_eq_nil_iff]
    omega
  rw [significandChars, if_neg (by rw [isEmpty_drop_one]; omega),
    List.getLast?_append_of_ne_nil _ (List.cons_ne_nil _ _),
    List.getLast?_cons_of_ne_nil hdrop, List.getLast?_drop, if_neg (by omega)]

/-! ## What a text denotes -/

/-- The rational number that a text without a sign denotes: digits, a point and more digits or none,
    and an exponent or none. -/
def unsigned? (text : List Char) : Option ℚ :=
  (Json.Datum.decimal? text).bind fun r => if r.2.isEmpty then some r.1.value else none

/-- The rational number that a text denotes, which may have a minus in front. -/
def denoted? (text : List Char) : Option ℚ :=
  if text.head? = some '-' then (unsigned? text.tail).map fun q => -q else unsigned? text

/-- A rational number with a sign. -/
def signed (negative : Bool) (q : ℚ) : ℚ :=
  if negative then -q else q

theorem unsigned?_append {n : Numeral} (hn : n.Tidy) (e : Option Int) :
    unsigned? (n.chars ++ e.elim [] exponentChars) = some (n.scaled.shift (e.getD 0)).value := by
  have hend : Json.EndsNumber [] := ⟨endsNumeral_nil, Text.stops_nil _⟩
  have hread := Json.Datum.decimal?_append hn e hend
  rw [List.append_nil] at hread
  rw [unsigned?, hread]
  rfl

theorem denoted?_append {n : Numeral} (hn : n.Tidy) (negative : Bool) (e : Option Int) :
    denoted? (signChars negative ++ (n.chars ++ e.elim [] exponentChars)) =
      some (signed negative (n.scaled.shift (e.getD 0)).value) := by
  have hread := unsigned?_append hn e
  cases negative with
  | false =>
    have hsign := n.head?_chars_append_ne (e.elim [] exponentChars)
      (show Char.isDigit '-' = false by decide)
    simp only [signChars, Bool.false_eq_true, if_false, List.nil_append]
    rw [denoted?, if_neg hsign, hread]
    rfl
  | true =>
    simp only [signChars, if_true, List.singleton_append]
    rw [denoted?, List.head?_cons, if_pos rfl, List.tail_cons, hread]
    rfl

/-! ## JavaScript -/

/-- The text that JavaScript gives to the number `significand · 10^(point - k)`, where `k` is the
    number of digits of the significand. -/
def javaScript (significand : Nat) (point : Int) : List Char :=
  let digits := Nat.toDigits 10 significand
  let k := digits.length
  let exponent := (if point < 0 then '-' else '+') :: Nat.toDigits 10 (point - 1).natAbs
  if -5 ≤ point ∧ point ≤ 21 then
    if k ≤ point then digits ++ zeros (point - k).toNat
    else if 0 < point then digits.take point.toNat ++ '.' :: digits.drop point.toNat
    else '0' :: '.' :: (zeros (-point).toNat ++ digits)
  else if k = 1 then digits ++ 'e' :: exponent
  else digits.take 1 ++ '.' :: (digits.drop 1 ++ 'e' :: exponent)

theorem layout_eq_javaScript (hs : s.Proper) :
    numberStyle.layout s = javaScript (ofDigits s.digits) (s.exponent + 1) := by
  have hpositional : numberStyle.positional s.exponent = true ↔
      -5 ≤ s.exponent + 1 ∧ s.exponent + 1 ≤ 21 := by
    rw [numberStyle_positional_iff]
    omega
  have hpos := List.length_pos_iff.mpr hs.ne_nil
  unfold Style.layout javaScript
  simp only [toDigits_ofDigits hs.ne_nil hs.isDigit hs.head_ne, hpositional]
  split
  · simp [positionalLayout, numberStyle]
  · next hrange =>
    have hsign : s.exponent < 0 ↔ s.exponent + 1 < 0 := by omega
    rw [exponentLayout_eq, significandChars, exponentChars, Int.add_sub_cancel]
    simp only [hsign, isEmpty_drop_one]
    by_cases hone : s.digits.length = 1
    · rw [if_pos hone.le, if_pos hone, List.take_of_length_le hone.le, List.append_nil]
    · rw [if_neg (by omega), if_neg hone, List.append_assoc, List.cons_append]

/-! ## Numbers in output -/

/-- The text of the number that has this sign, these digits and this exponent. -/
structure Written (negative : Bool) (s : Scientific) (text : List Char) : Prop where
  /-- it denotes the number -/
  denotes : denoted? text = some (signed negative s.value)
  /-- it is the layout of the digits, in which no cut or row of zeros fails -/
  layout : (layout? s).map (signChars negative ++ ·) = some text
  /-- it has an exponent if the number is small or large enough -/
  exponent : 'e' ∈ text ↔ s.exponent < -6 ∨ 20 < s.exponent
  /-- it has a point if digits come after it: those that stand for fractions, and with an exponent
      all but the first -/
  point : '.' ∈ text ↔ if s.exponent < -6 ∨ 20 < s.exponent then 1 < s.digits.length
    else s.exponent < s.digits.length - 1
  /-- it has no zero that could be left out -/
  bare : ∃ (n : Numeral) (e : Option Int),
    text = signChars negative ++ (n.chars ++ e.elim [] exponentChars) ∧ n.Bare ∧
      ∀ x ∈ e, (Nat.toDigits 10 x.natAbs).head? ≠ some '0'
  /-- it is the text that JavaScript gives to the number -/
  javaScript : text = signChars negative ++ javaScript (ofDigits s.digits) (s.exponent + 1)

theorem not_mem_exponentChars {c : Char} (hc : c.isDigit = false) (he : c ≠ 'e') (hm : c ≠ '-')
    (hp : c ≠ '+') (e : Int) : c ∉ exponentChars e := by
  have hdigits : c ∉ Nat.toDigits 10 e.natAbs := by
    intro hmem
    rw [isDigit_of_mem_toDigits c hmem] at hc
    cases hc
  rw [exponentChars]
  split <;> simp [he, hm, hp, hdigits]

theorem mem_point_layout (hs : s.Proper) : '.' ∈ numberStyle.layout s ↔
    if s.exponent < -6 ∨ 20 < s.exponent then 1 < s.digits.length
    else s.exponent < s.digits.length - 1 := by
  simp only [Style.layout, numberStyle_positional_iff]
  split
  · next h =>
    rw [if_neg (by omega)]
    exact mem_point_positionalLayout hs
  · next h =>
    have hexponent : '.' ∉ exponentChars s.exponent :=
      not_mem_exponentChars (by decide) (by decide) (by decide) (by decide) _
    rw [if_pos (by omega), exponentLayout_eq, List.mem_append, or_iff_left hexponent]
    exact mem_point_significandChars hs

/-- With a point in it, a layout has no zero before its exponent or its end. -/
theorem getLast?_ne_of_layout (hs : s.Stripped) {cs : List Char} {e : Option Int}
    (h : numberStyle.layout s = cs ++ e.elim [] exponentChars)
    (he : e = if numberStyle.positional s.exponent then none else some s.exponent)
    (hpoint : '.' ∈ cs) : cs.getLast? ≠ some '0' := by
  rw [Style.layout] at h
  subst he
  split at h
  · have hcs : positionalLayout false s = cs := by simpa [numberStyle] using h
    rw [← hcs] at hpoint ⊢
    rw [getLast?_positionalLayout hs.toProper hpoint]
    exact hs.last_ne
  · rw [exponentLayout_eq] at h
    obtain rfl : significandChars s = cs := List.append_cancel_right h
    rw [getLast?_significandChars ((mem_point_significandChars hs.toProper).mp hpoint)]
    exact hs.last_ne

theorem written_layout (hs : s.Stripped) (negative : Bool) :
    Written negative s (signChars negative ++ numberStyle.layout s) := by
  obtain ⟨n, e, hlayout, hvalue, htidy, he⟩ := numberStyle.exists_layout hs.toProper
  have hsign : ∀ c ∈ signChars negative, c = '-' := by cases negative <;> simp [signChars]
  have hmem : ∀ c, c ≠ '-' → (c ∈ signChars negative ++ numberStyle.layout s ↔
      c ∈ numberStyle.layout s) := by
    intro c hc
    rw [List.mem_append, or_iff_right fun h => hc (hsign c h)]
  have hbare := htidy.bare fun hpoint => getLast?_ne_of_layout hs hlayout he hpoint
  have hletter : 'e' ∈ numberStyle.layout s ↔ e ≠ none := by
    rw [hlayout, List.mem_append, or_iff_right n.letter_not_mem]
    cases e <;> simp [exponentChars]
  simp only [numberStyle_positional_iff] at he
  refine ⟨?_, ?_, ?_, ?_, ⟨n, e, by rw [hlayout], hbare, ?_⟩,
    by rw [layout_eq_javaScript hs.toProper]⟩
  · rw [hlayout, denoted?_append htidy, hvalue]
  · rw [layout?_eq hs.ne_nil]
    rfl
  · rw [hmem 'e' (by decide), hletter, he]
    split <;> simp <;> omega
  · rw [hmem '.' (by decide), mem_point_layout hs.toProper]
  · rintro x hx
    refine head?_toDigits ?_
    rw [he] at hx
    split at hx
    · cases hx
    · obtain rfl : s.exponent = x := by simpa using hx
      omega

/-- Whatever digits without a zero at either end, exponent and sign a number has, it is written as
    it should be, and every finite number other than zero has such digits. -/
theorem numbers_written :
    (∀ negative s, Scientific.Stripped s →
      Written negative s (signChars negative ++ numberStyle.layout s)) ∧
    ∀ x negative b, parts x = .finite negative b → 0 < b.m →
      (b.shortest numberStyle.tie).scientific.Stripped ∧
        (numberStyle.write x).toList =
          signChars negative ++ numberStyle.layout (b.shortest numberStyle.tie).scientific :=
  ⟨fun negative _ hs => written_layout hs negative, fun _ _ _ h hm =>
    ⟨Scaled.scientific_stripped (Binary.coefficient_pos hm (Binary.rounds_shortest hm _)),
      numberStyle.toList_write h hm⟩⟩

theorem numbers_written_small :
    parts (-1.5e-7) = .finite true ⟨5666839779443574, -75⟩ ∧
      numberStyle.write (-1.5e-7) = "-1.5e-7" ∧
      Written true ⟨['1', '5'], -7⟩ "-1.5e-7".toList := by
  have hparts : parts (-1.5e-7) = .finite true ⟨5666839779443574, -75⟩ := by decide
  have hdigits : (Binary.shortest ⟨5666839779443574, -75⟩ numberStyle.tie).scientific =
      ⟨['1', '5'], -7⟩ := by decide +kernel
  obtain ⟨hstripped, htext⟩ := numbers_written.2 (-1.5e-7) true _ hparts (by decide)
  rw [hdigits] at hstripped htext
  have hlayout : signChars true ++ numberStyle.layout ⟨['1', '5'], -7⟩ = "-1.5e-7".toList := by
    decide
  rw [hlayout] at htext
  have hwritten := numbers_written.1 true ⟨['1', '5'], -7⟩ hstripped
  rw [hlayout] at hwritten
  exact ⟨hparts, String.toList_injective htext, hwritten⟩

end Decimal

end Respell
