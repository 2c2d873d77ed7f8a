-- SUMMARY: The ways to write a string of JSON, and that each of them is read as the string.
import Respell.Json
import Respell.Json.Read
import Respell.Proofs.Lexing.Lexemes

/-!
# Strings of JSON

Inside a string a character stands for itself, unless it is a quote, a backslash or a control
character. Some have a letter behind a backslash. Every one has a number: of four hexadecimal digits
if it fits, and in two halves if not. The choice is free for each character, and the reader gives
the same string back, whatever stands behind it.
-/

namespace Respell.Json

/-! ## Blanks -/

/-- Whether JSON allows the character between its pieces. -/
def isGap (c : Char) : Bool :=
  c == ' ' || c == '\n' || c == '\t' || c == '\r'

theorem skipBlanks_append {gap rest : List Char} (hgap : ∀ c ∈ gap, isGap c = true)
    (hrest : Text.Stops isGap rest) : skipBlanks (gap ++ rest) = rest :=
  hrest.dropWhile_append hgap

theorem skipBlanks_cons {c : Char} (hc : isGap c = false) (cs : List Char) :
    skipBlanks (c :: cs) = c :: cs := by
  simpa using skipBlanks_append (List.forall_mem_nil _) (Text.stops_cons.mpr hc)

/-- Blanks are skipped together with those behind them. -/
theorem skipBlanks_gap {gap : List Char} (hgap : ∀ c ∈ gap, isGap c = true) (rest : List Char) :
    skipBlanks (gap ++ rest) = skipBlanks rest := by
  induction gap with
  | nil => rfl
  | cons c gap ih =>
    obtain ⟨hc, hgap⟩ := List.forall_mem_cons.mp hgap
    rw [List.cons_append, ← ih hgap]
    exact List.dropWhile_cons_of_pos hc

/-! ## Characters -/

/-- A hexadecimal digit, of either case, and its value. -/
def IsHex (c : Char) (n : Nat) : Prop :=
  n < 16 ∧ (c = Nat.digitChar n ∨ c = (Nat.digitChar n).toUpper)

instance (c : Char) (n : Nat) : Decidable (IsHex c n) :=
  inferInstanceAs (Decidable (_ ∧ _))

/-- Four hexadecimal digits, the highest one first, and the number that they stand for. -/
inductive HexNumber : List Char → Nat → Prop where
  | mk {a b c d : Char} {w x y z n : Nat} : IsHex a w → IsHex b x → IsHex c y → IsHex d z →
      n = 4096 * w + 256 * x + 16 * y + z → HexNumber [a, b, c, d] n

/-- The letters behind a backslash, and the characters that they stand for. -/
def letters : List (Char × Char) :=
  [('"', '"'), ('\\', '\\'), ('/', '/'), ('b', '\x08'), ('f', '\x0c'), ('n', '\n'), ('r', '\r'),
    ('t', '\t')]

/-- What stands for a character inside a string. -/
inductive CharText : Char → List Char → Prop where
  | plain {c : Char} : 0x20 ≤ c.toNat → c ≠ '"' → c ≠ '\\' → CharText c [c]
  | letter {c letter : Char} : (letter, c) ∈ letters → CharText c ['\\', letter]
  | number {c : Char} {digits : List Char} : HexNumber digits c.toNat →
      CharText c ('\\' :: 'u' :: digits)
  /-- a character beyond sixteen bits, by two halves of ten bits each -/
  | pair {c : Char} {leading trailing : List Char} : 0x10000 ≤ c.toNat →
      HexNumber leading (0xD800 + (c.toNat - 0x10000) / 0x400) →
      HexNumber trailing (0xDC00 + (c.toNat - 0x10000) % 0x400) →
      CharText c ('\\' :: 'u' :: leading ++ '\\' :: 'u' :: trailing)

theorem hexDigit?_of_isHex {c : Char} {n : Nat} (h : IsHex c n) : hexDigit? c = some n := by
  obtain ⟨hn, rfl | rfl⟩ := h
  · revert n
    decide
  · revert n
    decide

theorem HexNumber.exists_hexNumber? {digits : List Char} {n : Nat} (h : HexNumber digits n) :
    ∃ a b c d, digits = [a, b, c, d] ∧ hexNumber? a b c d = some n := by
  cases h with
  | mk ha hb hc hd hn =>
    refine ⟨_, _, _, _, rfl, ?_⟩
    rw [hexNumber?, hexDigit?_of_isHex ha, hexDigit?_of_isHex hb, hexDigit?_of_isHex hc,
      hexDigit?_of_isHex hd, hn]
    rfl

/-- No character has the number of a half. -/
theorem not_half (c : Char) : isLeading c.toNat = false ∧ isTrailing c.toNat = false := by
  have hvalid : c.toNat < 0xD800 ∨ 0xDFFF < c.toNat ∧ c.toNat < 0x110000 := c.valid
  simp only [isLeading, isTrailing, Bool.and_eq_false_iff, decide_eq_false_iff_not]
  omega

theorem readEscape?_letter {c letter : Char} (h : (letter, c) ∈ letters) (rest : List Char) :
    readEscape? (letter :: rest) = some (c, rest) := by
  simp only [letters, List.mem_cons, Prod.mk.injEq, List.not_mem_nil, or_false] at h
  obtain h | h | h | h | h | h | h | h := h <;>
  · obtain ⟨rfl, rfl⟩ := h
    rfl

theorem readEscape?_number {c : Char} {digits : List Char} (h : HexNumber digits c.toNat)
    (rest : List Char) : readEscape? ('u' :: digits ++ rest) = some (c, rest) := by
  obtain ⟨a, b, c', d, rfl, hnumber⟩ := h.exists_hexNumber?
  obtain ⟨hleading, htrailing⟩ := not_half c
  simp [readEscape?, hnumber, hleading, htrailing]

theorem readEscape?_pair {c : Char} {leading trailing : List Char} (hc : 0x10000 ≤ c.toNat)
    (hleading : HexNumber leading (0xD800 + (c.toNat - 0x10000) / 0x400))
    (htrailing : HexNumber trailing (0xDC00 + (c.toNat - 0x10000) % 0x400)) (rest : List Char) :
    readEscape? ('u' :: leading ++ ('\\' :: 'u' :: trailing ++ rest)) = some (c, rest) := by
  obtain ⟨a, b, c', d, rfl, hn⟩ := hleading.exists_hexNumber?
  obtain ⟨a', b', c'', d', rfl, hm⟩ := htrailing.exists_hexNumber?
  have hvalid : c.toNat < 0xD800 ∨ 0xDFFF < c.toNat ∧ c.toNat < 0x110000 := c.valid
  have hquotient : (c.toNat - 0x10000) / 0x400 < 0x400 := by omega
  have hremainder : (c.toNat - 0x10000) % 0x400 < 0x400 := Nat.mod_lt _ (by decide)
  have hvalue : 0x10000 + 0x400 * ((c.toNat - 0x10000) / 0x400) + (c.toNat - 0x10000) % 0x400 =
      c.toNat := by omega
  generalize (c.toNat - 0x10000) / 0x400 = quotient at *
  generalize (c.toNat - 0x10000) % 0x400 = remainder at *
  have hfirst : isLeading (0xD800 + quotient) = true ∧ isTrailing (0xD800 + quotient) = false := by
    simp only [isLeading, isTrailing, Bool.and_eq_true, Bool.and_eq_false_iff, decide_eq_true_eq,
      decide_eq_false_iff_not]
    omega
  have hsecond : isTrailing (0xDC00 + remainder) = true := by
    simp only [isTrailing, Bool.and_eq_true, decide_eq_true_eq]
    omega
  simp [readEscape?, hn, hm, hfirst, hsecond, hvalue]

/-- Whatever stands for a character is read as the character. -/
theorem CharText.readCharsWithin {c : Char} {text : List Char} (h : CharText c text) (count : Nat)
    (rest : List Char) : readCharsWithin (count + 1) (text ++ rest) =
      (readCharsWithin count rest).map fun r => (c :: r.1, r.2) := by
  cases h with
  | plain hcontrol hquote hbackslash =>
    rw [List.singleton_append, Json.readCharsWithin, if_neg hquote, if_neg hbackslash,
      if_neg (Nat.not_lt.mpr hcontrol)]
  | letter hletter => simp [Json.readCharsWithin, readEscape?_letter hletter]
  | number hnumber =>
    have hread := readEscape?_number hnumber rest
    simp only [List.cons_append] at hread
    simp [Json.readCharsWithin, hread]
  | pair hc hleading htrailing =>
    have hread := readEscape?_pair hc hleading htrailing rest
    simp only [List.cons_append] at hread
    simp [Json.readCharsWithin, hread]

theorem CharText.length_pos {c : Char} {text : List Char} (h : CharText c text) :
    0 < text.length := by
  cases h <;> exact Nat.succ_pos _

/-! ## Strings -/

/-- What stands for characters between the quotes. -/
inductive BodyText : List Char → List Char → Prop where
  | nil : BodyText [] []
  | cons {c : Char} {cs front rest : List Char} : CharText c front → BodyText cs rest →
      BodyText (c :: cs) (front ++ rest)

/-- What stands for a string. -/
inductive StringText : String → List Char → Prop where
  | mk {s : String} {body : List Char} : BodyText s.toList body →
      StringText s ('"' :: (body ++ ['"']))

theorem BodyText.length_le {cs text : List Char} (h : BodyText cs text) :
    cs.length ≤ text.length := by
  induction h with
  | nil => exact Nat.le_refl 0
  | cons hchar _ ih =>
    have hpos := hchar.length_pos
    rw [List.length_append, List.length_cons]
    omega

theorem BodyText.readCharsWithin {cs text : List Char} (h : BodyText cs text) {count : Nat}
    (hcount : cs.length < count) (rest : List Char) :
    readCharsWithin count (text ++ '"' :: rest) = some (cs, rest) := by
  induction h generalizing count with
  | nil =>
    obtain ⟨count, rfl⟩ := Nat.exists_eq_add_of_lt hcount
    simp [Json.readCharsWithin]
  | cons hchar _ ih =>
    obtain ⟨count, rfl⟩ := Nat.exists_eq_add_of_lt hcount
    rw [List.append_assoc, hchar.readCharsWithin, ih (by rw [List.length_cons]; omega)]
    rfl

/-- Whatever stands for a string is read as the string. -/
theorem StringText.readString? {s : String} {text : List Char} (h : StringText s text)
    (rest : List Char) : ∃ cs, text = '"' :: cs ∧ readString? (cs ++ rest) = some (s, rest) := by
  cases h with
  | @mk body hbody =>
    refine ⟨_, rfl, ?_⟩
    have hcount : s.toList.length < (body ++ '"' :: rest).length + 1 := by
      have hle := hbody.length_le
      rw [List.length_append]
      omega
    rw [List.append_assoc, List.singleton_append, Json.readString?, hbody.readCharsWithin hcount]
    simp

/-! ## What the writer makes -/

/-- A control character has its number in two digits, after two zeros. -/
theorem digits_control : ∀ n < 0x20,
    List.replicate (4 - (Nat.toDigits 16 n).length) '0' ++ Nat.toDigits 16 n =
      ['0', '0', Nat.digitChar (n / 16), Nat.digitChar (n % 16)] := by
  decide

theorem hexNumber_control {n : Nat} (h : n < 0x20) :
    HexNumber ['0', '0', Nat.digitChar (n / 16), Nat.digitChar (n % 16)] n := by
  have hzero : IsHex '0' 0 := by decide
  refine .mk hzero hzero ⟨?_, .inl rfl⟩ ⟨?_, .inl rfl⟩ ?_
  · omega
  · omega
  · omega

theorem charText_escape (c : Char) : CharText c (escape c).toList := by
  unfold escape
  split
  -- Seven characters have a letter, or themselves, behind the backslash.
  · exact .letter (by decide)
  · exact .letter (by decide)
  · exact .letter (by decide)
  · exact .letter (by decide)
  · exact .letter (by decide)
  · exact .letter (by decide)
  · exact .letter (by decide)
  · next hquote hbackslash _ _ _ _ _ =>
    split
    · next hcontrol =>
      have hnumber := hexNumber_control hcontrol
      rw [← digits_control c.toNat hcontrol] at hnumber
      simpa using CharText.number hnumber
    · next hplain =>
      rw [Char.toString, String.toList_singleton]
      exact .plain (Nat.not_lt.mp hplain) hquote hbackslash

theorem bodyText_escape (cs : List Char) :
    BodyText cs (cs.flatMap fun c => (escape c).toList) := by
  induction cs with
  | nil => exact .nil
  | cons c cs ih => exact .cons (charText_escape c) ih

theorem stringText_string (s : String) : StringText s (string s).toList := by
  have hbody := StringText.mk (bodyText_escape s.toList)
  simpa [string, String.toList_join, List.flatMap_map] using hbody

/-- A string that was written is read as the string. -/
theorem readString?_string (s : String) (rest : List Char) :
    ∃ cs, (string s).toList = '"' :: cs ∧ readString? (cs ++ rest) = some (s, rest) :=
  (stringText_string s).readString? rest

end Respell.Json
