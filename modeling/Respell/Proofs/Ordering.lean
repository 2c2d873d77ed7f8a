-- SUMMARY: Texts are in the order of the numbers of their characters, though bytes are compared.
import Mathlib.Algebra.Group.Nat.Defs
import Mathlib.Data.List.Lex
import Respell.Value

/-!
# The order of texts

Two texts are compared byte by byte. A character takes one byte or a first byte and up to three more
that have six bits each, and the first byte tells how many follow: the greater it is, the more they
are. So of two characters the one with the smaller number has the smaller byte where their bytes
first differ, and they do differ before either ends. The texts then compare as the lists of the
numbers of their characters do, and that order is total and strict.
-/

namespace Respell

namespace Text

/-- The numbers of the characters of a text. -/
def codePoints (s : String) : List Nat :=
  s.toList.map Char.toNat

theorem codePoints_injective : Function.Injective codePoints := by
  intro a b h
  have hinjective : Function.Injective Char.toNat := fun _ _ => Char.toNat_inj.mp
  exact String.toList_inj.mp (List.map_injective_iff.mpr hinjective h)

theorem bytes_eq (s : String) : bytes s = s.toList.flatMap String.utf8EncodeChar := by
  rw [bytes, String.toUTF8, ← String.utf8Encode_toList]
  exact List.toList_data_toByteArray

/-! ## Bytes of a character -/

/-- There is a first place at which the lists differ, and the first list has the smaller byte
    there. -/
inductive ForksBelow : List UInt8 → List UInt8 → Prop where
  | here {x y : UInt8} {xs ys : List UInt8} : x < y → ForksBelow (x :: xs) (y :: ys)
  | there {x : UInt8} {xs ys : List UInt8} : ForksBelow xs ys → ForksBelow (x :: xs) (x :: ys)

/-- Whatever follows, the lists stay in order. -/
theorem ForksBelow.append_lt {xs ys : List UInt8} (h : ForksBelow xs ys) (us vs : List UInt8) :
    xs ++ us < ys ++ vs := by
  induction h with
  | here hxy => exact List.cons_lt_cons_iff.mpr (.inl hxy)
  | there _ ih => exact List.cons_lt_cons_iff.mpr (.inr ⟨rfl, ih⟩)

/-- A byte that is no greater, and if it is the same, the rest decides. -/
theorem ForksBelow.of_le {m n : Nat} {xs ys : List UInt8} (hle : m ≤ n) (hn : n < 256)
    (h : m = n → ForksBelow xs ys) :
    ForksBelow (UInt8.ofNat m :: xs) (UInt8.ofNat n :: ys) := by
  obtain rfl | hlt := Nat.eq_or_lt_of_le hle
  · exact .there (h rfl)
  · refine .here (UInt8.lt_iff_toNat_lt.mpr ?_)
    rwa [UInt8.toNat_ofNat_of_lt' (hlt.trans hn), UInt8.toNat_ofNat_of_lt' hn]

/-- The last bytes of a character with the number `v`, six bits of it in each. -/
def continuation : Nat → Nat → List UInt8
  | 0, _ => []
  | k + 1, v => UInt8.ofNat (v / 64 ^ k % 64 + 128) :: continuation k v

theorem continuation_forksBelow {k v w : Nat} (h : v % 64 ^ k < w % 64 ^ k) :
    ForksBelow (continuation k v) (continuation k w) := by
  induction k with
  | zero => simp [Nat.mod_one] at h
  | succ k ih =>
    rw [Nat.pow_succ, Nat.mod_mul, Nat.mod_mul] at h
    have hpos : 0 < 64 ^ k := Nat.pow_pos (by decide)
    have hv := Nat.mod_lt v hpos
    have hw := Nat.mod_lt w hpos
    have hle : v / 64 ^ k % 64 ≤ w / 64 ^ k % 64 := by
      by_contra hgt
      have := Nat.mul_le_mul_left (64 ^ k) (Nat.succ_le_of_lt (Nat.lt_of_not_le hgt))
      rw [Nat.mul_succ] at this
      omega
    refine .of_le (by omega) (by omega) fun heq => ih ?_
    rw [show v / 64 ^ k % 64 = w / 64 ^ k % 64 by omega] at h
    omega

/-- The bytes of a character: how many there are depends on its number, and the first byte is
    greater the more they are. -/
theorem utf8EncodeChar_cases (c : Char) :
    (c.toNat < 128 ∧ String.utf8EncodeChar c = UInt8.ofNat c.toNat :: continuation 0 c.toNat) ∨
    (128 ≤ c.toNat ∧ c.toNat < 2048 ∧
      String.utf8EncodeChar c = UInt8.ofNat (c.toNat / 64 + 192) :: continuation 1 c.toNat) ∨
    (2048 ≤ c.toNat ∧ c.toNat < 65536 ∧
      String.utf8EncodeChar c = UInt8.ofNat (c.toNat / 4096 + 224) :: continuation 2 c.toNat) ∨
    (65536 ≤ c.toNat ∧ c.toNat < 1114112 ∧ String.utf8EncodeChar c =
      UInt8.ofNat (c.toNat / 262144 + 240) :: continuation 3 c.toNat) := by
  have hlt : c.toNat < 1114112 := by
    rcases c.valid with h | ⟨-, h⟩
    · exact h.trans (by decide)
    · exact h
  have hval : c.val.toNat = c.toNat := rfl
  simp only [String.utf8EncodeChar, hval, continuation, Nat.reducePow, Nat.div_one]
  split_ifs with h1 h2 h3
  · exact .inl ⟨by omega, rfl⟩
  · have hfirst : c.toNat / 64 % 32 = c.toNat / 64 := Nat.mod_eq_of_lt (by omega)
    exact .inr (.inl ⟨by omega, by omega, by rw [hfirst]⟩)
  · have hfirst : c.toNat / 4096 % 16 = c.toNat / 4096 := Nat.mod_eq_of_lt (by omega)
    exact .inr (.inr (.inl ⟨by omega, by omega, by rw [hfirst]⟩))
  · have hfirst : c.toNat / 262144 % 8 = c.toNat / 262144 := Nat.mod_eq_of_lt (by omega)
    exact .inr (.inr (.inr ⟨by omega, hlt, by rw [hfirst]⟩))

/-- The bytes of two characters fork below if the number of the first is smaller. -/
theorem utf8EncodeChar_forksBelow {c d : Char} (h : c.toNat < d.toNat) :
    ForksBelow (String.utf8EncodeChar c) (String.utf8EncodeChar d) := by
  -- With different numbers of bytes the first ones differ; with the same number the first ones and
  -- the rests are compared.
  obtain ⟨hc, ec⟩ | ⟨hc, hc', ec⟩ | ⟨hc, hc', ec⟩ | ⟨hc, hc', ec⟩ := utf8EncodeChar_cases c <;>
    obtain ⟨hd, ed⟩ | ⟨hd, hd', ed⟩ | ⟨hd, hd', ed⟩ | ⟨hd, hd', ed⟩ := utf8EncodeChar_cases d <;>
    first
    | omega
    | rw [ec, ed]
      refine .of_le (by omega) (by omega) fun heq => ?_
      first
      | omega
      | exact continuation_forksBelow (by omega)

/-! ## Texts -/

theorem flatMap_utf8EncodeChar_lt {cs ds : List Char} (h : cs.map Char.toNat < ds.map Char.toNat) :
    cs.flatMap String.utf8EncodeChar < ds.flatMap String.utf8EncodeChar := by
  induction cs generalizing ds with
  | nil =>
    cases ds with
    | nil => exact absurd h (List.not_lt_nil _)
    | cons d ds =>
      obtain ⟨x, xs, hx⟩ := List.exists_cons_of_ne_nil (String.utf8EncodeChar_ne_nil (c := d))
      rw [List.flatMap_nil, List.flatMap_cons, hx]
      exact List.nil_lt_cons x _
  | cons c cs ih =>
    cases ds with
    | nil => exact absurd h (List.not_lt_nil _)
    | cons d ds =>
      rw [List.flatMap_cons, List.flatMap_cons]
      obtain hcd | ⟨hcd, hrest⟩ := List.cons_lt_cons_iff.mp h
      · exact (utf8EncodeChar_forksBelow hcd).append_lt _ _
      · obtain rfl := Char.toNat_inj.mp hcd
        exact List.append_left_lt (ih hrest)

theorem strictMono_bytes {a b : String} (h : codePoints a < codePoints b) : bytes a < bytes b := by
  rw [bytes_eq, bytes_eq]
  exact flatMap_utf8EncodeChar_lt h

/-- To compare the bytes of texts is to compare the numbers of their characters. -/
theorem precedes_iff {a b : String} : precedes a b = true ↔ codePoints a < codePoints b := by
  rw [precedes, decide_eq_true_iff]
  refine ⟨fun h => ?_, strictMono_bytes⟩
  rcases lt_trichotomy (codePoints a) (codePoints b) with hlt | heq | hgt
  · exact hlt
  · obtain rfl := codePoints_injective heq
    exact absurd h (List.lt_irrefl _)
  · exact absurd h (List.lt_asymm (strictMono_bytes hgt))

-- As pairs of surrogates, the two characters would be the other way round.
example : precedes "\uFFFF" "😀" = true := by decide

theorem precedes_eq_decide (a b : String) :
    precedes a b = decide (codePoints a < codePoints b) :=
  Bool.eq_iff_iff.mpr (precedes_iff.trans decide_eq_true_iff.symm)

end Text

/-! ## Values -/

/-- Two values that have an order. -/
def Value.Comparable : Value → Value → Prop
  | .number _, .number _ => True
  | .text _, .text _ => True
  | _, _ => False

theorem Value.comparable_comm {v w : Value} : v.Comparable w ↔ w.Comparable v := by
  cases v <;> cases w <;> rfl

/-- The operation does not take its operands. -/
def IsTypeError (r : Except RuntimeError Value) : Prop :=
  ∃ mismatch span, r = .error (.typeError mismatch span)

namespace BinaryOp

/-- The operator gives the truth value `b` to the values, wherever it stands. -/
def Gives (op : BinaryOp) (v w : Value) (b : Bool) : Prop :=
  ∀ span divisor, op.apply v w span divisor = .ok (.bool b)

theorem less_text (a b : String) :
    less.Gives (.text a) (.text b) (decide (Text.codePoints a < Text.codePoints b)) := by
  intro span divisor
  rw [← Text.precedes_eq_decide]
  rfl

theorem equal_text (a b : String) :
    equal.Gives (.text a) (.text b) (decide (Text.codePoints a = Text.codePoints b)) := by
  intro span divisor
  have hsame : (a == b) = decide (Text.codePoints a = Text.codePoints b) := by
    rw [Bool.eq_iff_iff, beq_iff_eq, decide_eq_true_iff, Text.codePoints_injective.eq_iff]
  rw [← hsame]
  rfl

theorem greater_text_eq (a b : String) (span divisor : Span) :
    greater.apply (.text a) (.text b) span divisor = less.apply (.text b) (.text a) span divisor :=
  rfl

theorem greater_text (a b : String) :
    greater.Gives (.text a) (.text b) (decide (Text.codePoints b < Text.codePoints a)) :=
  less_text b a

theorem less_text_iff {a b : String} :
    less.Gives (.text a) (.text b) true ↔ Text.codePoints a < Text.codePoints b := by
  constructor
  · intro h
    have hvalue := (h default default).symm.trans (less_text a b default default)
    exact of_decide_eq_true (Value.bool.inj (Except.ok.inj hvalue)).symm
  · intro h
    have hless := less_text a b
    rwa [decide_eq_true h] at hless

/-- On two texts, one of `<`, `==` and `>` gives true, and the two others give false. -/
theorem text_trichotomy (a b : String) :
    (less.Gives (.text a) (.text b) true ∧ equal.Gives (.text a) (.text b) false ∧
      greater.Gives (.text a) (.text b) false) ∨
    (less.Gives (.text a) (.text b) false ∧ equal.Gives (.text a) (.text b) true ∧
      greater.Gives (.text a) (.text b) false) ∨
    (less.Gives (.text a) (.text b) false ∧ equal.Gives (.text a) (.text b) false ∧
      greater.Gives (.text a) (.text b) true) := by
  have hless := less_text a b
  have hequal := equal_text a b
  have hgreater := greater_text a b
  rcases lt_trichotomy (Text.codePoints a) (Text.codePoints b) with h | h | h
  · rw [decide_eq_true h] at hless
    rw [decide_eq_false h.ne] at hequal
    rw [decide_eq_false h.not_gt] at hgreater
    exact .inl ⟨hless, hequal, hgreater⟩
  · rw [decide_eq_false h.not_lt] at hless
    rw [decide_eq_true h] at hequal
    rw [decide_eq_false h.not_gt] at hgreater
    exact .inr (.inl ⟨hless, hequal, hgreater⟩)
  · rw [decide_eq_false h.not_gt] at hless
    rw [decide_eq_false h.ne'] at hequal
    rw [decide_eq_true h] at hgreater
    exact .inr (.inr ⟨hless, hequal, hgreater⟩)

/-- `<` is a strict total order on texts. -/
theorem less_text_strictTotalOrder :
    IsStrictTotalOrder String fun a b => less.Gives (.text a) (.text b) true where
  irrefl a h := List.lt_irrefl _ (less_text_iff.mp h)
  trans a b c hab hbc := less_text_iff.mpr ((less_text_iff.mp hab).trans (less_text_iff.mp hbc))
  trichotomous a b hab hba := by
    rw [less_text_iff] at hab hba
    exact Text.codePoints_injective (le_antisymm (not_lt.mp hba) (not_lt.mp hab))

/-- `<` and `>` have a truth value for values that have an order, and take no others. -/
theorem isTypeError_iff {op : BinaryOp} (hop : op = less ∨ op = greater) (v w : Value)
    (span divisor : Span) : IsTypeError (op.apply v w span divisor) ↔ ¬v.Comparable w := by
  obtain rfl | rfl := hop
  all_goals
    cases v <;> cases w <;> simp [IsTypeError, apply, Value.Comparable]

/-- Two texts are compared by the numbers of their characters. On texts `<` is a strict total order,
    one of `<`, `==` and `>` holds, and `>` is `<` the other way round. Other values than two texts
    or two numbers are not compared at all, whichever way round and by whichever of the two. -/
theorem comparison_orders_texts :
    (∀ a b : String,
      less.Gives (.text a) (.text b) (decide (Text.codePoints a < Text.codePoints b))) ∧
    (IsStrictTotalOrder String fun a b => less.Gives (.text a) (.text b) true) ∧
    (∀ a b : String,
      (less.Gives (.text a) (.text b) true ∧ equal.Gives (.text a) (.text b) false ∧
        greater.Gives (.text a) (.text b) false) ∨
      (less.Gives (.text a) (.text b) false ∧ equal.Gives (.text a) (.text b) true ∧
        greater.Gives (.text a) (.text b) false) ∨
      (less.Gives (.text a) (.text b) false ∧ equal.Gives (.text a) (.text b) false ∧
        greater.Gives (.text a) (.text b) true)) ∧
    (∀ (a b : String) (span divisor : Span),
      greater.apply (.text a) (.text b) span divisor =
        less.apply (.text b) (.text a) span divisor) ∧
    ∀ (v w : Value) (span divisor span' divisor' : Span),
      (IsTypeError (less.apply v w span divisor) ↔ IsTypeError (greater.apply v w span divisor)) ∧
      (IsTypeError (less.apply v w span divisor) ↔
        IsTypeError (less.apply w v span' divisor')) ∧
      (IsTypeError (greater.apply v w span divisor) ↔
        IsTypeError (greater.apply w v span' divisor')) ∧
      (IsTypeError (less.apply v w span divisor) ↔ ¬v.Comparable w) := by
  refine ⟨less_text, less_text_strictTotalOrder, text_trichotomy, greater_text_eq, ?_⟩
  intro v w span divisor span' divisor'
  have hless := isTypeError_iff (.inl rfl) v w span divisor
  have hgreater := isTypeError_iff (.inr rfl) v w span divisor
  have hless' := isTypeError_iff (.inl rfl) w v span' divisor'
  have hgreater' := isTypeError_iff (.inr rfl) w v span' divisor'
  rw [Value.comparable_comm] at hless' hgreater'
  exact ⟨hless.trans hgreater.symm, hless.trans hless'.symm, hgreater.trans hgreater'.symm, hless⟩

end BinaryOp

end Respell
