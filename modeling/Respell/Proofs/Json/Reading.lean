-- SUMMARY: A reader of JSON texts, and what it makes of the pieces that are written.
import Respell.Proofs.Decimal.Layout
import Respell.Proofs.Json.Strings

/-!
# Reading JSON

The reader takes every JSON text: blanks between the pieces, all escapes, numbers with fraction and
exponent, arrays and objects of any depth. Numbers are rounded to the nearest, and the members of an
object keep their order. What the writer makes of strings and numbers is read back as them, whatever
stands behind, as long as it cannot belong to a number.
-/

namespace Respell.Json

open Decimal (ofDigits Scaled exponentChars signChars withSign)

/-- What a JSON text stands for. -/
inductive Datum where
  | null
  | bool (value : Bool)
  | number (value : Float)
  | text (contents : String)
  | list (items : List Datum)
  /-- names and data in the order of the text -/
  | object (members : List (String × Datum))

namespace Datum

/-! ## Numbers -/

/-- A row of digits, and what follows. -/
def digits? (cs : List Char) : Option (List Char × List Char) :=
  let digits := cs.takeWhile Char.isDigit
  if digits.isEmpty then none else some (digits, cs.dropWhile Char.isDigit)

/-- The digits before the point. A zero stands in front of no other digit. -/
def whole? (cs : List Char) : Option (List Char × List Char) :=
  (digits? cs).filter fun r => r.1.head? != some '0' || r.1 == ['0']

/-- The digits after the point, if there is one. -/
def fraction? (cs : List Char) : Option (List Char × List Char) :=
  if cs.head? = some '.' then digits? cs.tail else some ([], cs)

/-- The exponent behind its letter. -/
def signedDigits? (cs : List Char) : Option (Int × List Char) :=
  if cs.head? = some '-' then (digits? cs.tail).map fun r => (-(ofDigits r.1 : Int), r.2)
  else (digits? (if cs.head? = some '+' then cs.tail else cs)).map fun r => (ofDigits r.1, r.2)

/-- The exponent, if there is one. -/
def exponent? (cs : List Char) : Option (Int × List Char) :=
  if cs.head? = some 'e' ∨ cs.head? = some 'E' then signedDigits? cs.tail else some (0, cs)

/-- A number without its sign. -/
def decimal? (cs : List Char) : Option (Scaled × List Char) :=
  (whole? cs).bind fun whole =>
    (fraction? whole.2).bind fun fraction =>
      (exponent? fraction.2).map fun exponent =>
        (⟨ofDigits (whole.1 ++ fraction.1), -(fraction.1.length : Int) + exponent.1⟩, exponent.2)

/-- A number. -/
def number? (cs : List Char) : Option (Float × List Char) :=
  if cs.head? = some '-' then (decimal? cs.tail).map fun r => (-r.1.nearest, r.2)
  else (decimal? cs).map fun r => (r.1.nearest, r.2)

/-! ## Arrays and objects -/

/-- Items with commas between them, up to the closing character. Every item takes at least one
    character, so `count` is enough when it is the length of the text. -/
def itemsWithin {α : Type} (item : List Char → Option (α × List Char)) (close : Char) :
    Nat → List Char → Option (List α × List Char)
  | 0, _ => none
  | count + 1, cs =>
    match item (skipBlanks cs) with
    | none => none
    | some (a, rest) =>
      match skipBlanks rest with
      | [] => none
      | c :: rest =>
        if c = ',' then (itemsWithin item close count rest).map fun r => (a :: r.1, r.2)
        else if c = close then some ([a], rest)
        else none

/-- The items of an array or object; `cs` starts after the opening character. -/
def items? {α : Type} (item : List Char → Option (α × List Char)) (close : Char)
    (cs : List Char) : Option (List α × List Char) :=
  if (skipBlanks cs).head? = some close then some ([], (skipBlanks cs).tail)
  else itemsWithin item close cs.length cs

/-- A member of an object: its name, a colon and its value. -/
def member? (value : List Char → Option (Datum × List Char)) (cs : List Char) :
    Option ((String × Datum) × List Char) :=
  if cs.head? = some '"' then
    match readString? cs.tail with
    | none => none
    | some (name, rest) =>
      if (skipBlanks rest).head? = some ':' then
        (value (skipBlanks (skipBlanks rest).tail)).map fun r => ((name, r.1), r.2)
      else none
  else none

/-- A value that is nested at most `depth` deep. -/
def valueWithin : Nat → List Char → Option (Datum × List Char)
  | 0, _ => none
  | _ + 1, [] => none
  | depth + 1, c :: cs =>
    if c = '"' then (readString? cs).map fun r => (.text r.1, r.2)
    else if c = '[' then (items? (valueWithin depth) ']' cs).map fun r => (.list r.1, r.2)
    else if c = '{' then
      (items? (member? (valueWithin depth)) '}' cs).map fun r => (.object r.1, r.2)
    else if c = 'n' then (dropWord? "null".toList (c :: cs)).map fun rest => (.null, rest)
    else if c = 't' then (dropWord? "true".toList (c :: cs)).map fun rest => (.bool true, rest)
    else if c = 'f' then (dropWord? "false".toList (c :: cs)).map fun rest => (.bool false, rest)
    else (number? (c :: cs)).map fun r => (.number r.1, r.2)

/-- What a text stands for, if it is JSON: one value with nothing but blanks around it. Nesting
    takes characters, so the length of the text is depth enough. -/
def read? (text : String) : Option Datum :=
  match valueWithin text.length (skipBlanks text.toList) with
  | none => none
  | some (d, rest) => if (skipBlanks rest).isEmpty then some d else none

end Datum

/-! ## Numbers -/

/-- Nothing that could belong to a number stands in front. -/
structure EndsNumber (rest : List Char) : Prop extends Decimal.EndsNumeral rest where
  letter : Text.Stops (fun c => c == 'e' || c == 'E') rest

theorem endsNumber_cons {c : Char} (hdigit : c.isDigit = false) (hpoint : (c == '.') = false)
    (hletter : (c == 'e' || c == 'E') = false) (cs : List Char) : EndsNumber (c :: cs) :=
  ⟨⟨Text.stops_cons.mpr hdigit, Text.stops_cons.mpr hpoint⟩, Text.stops_cons.mpr hletter⟩

/-- Neither a blank nor the end of an object belongs to a number. -/
theorem endsNumber_of_gap {gap : List Char} (hgap : ∀ c ∈ gap, isGap c = true)
    (rest : List Char) : EndsNumber (gap ++ '}' :: rest) := by
  cases gap with
  | nil => exact endsNumber_cons (by decide) (by decide) (by decide) rest
  | cons c gap =>
    have hc := hgap c List.mem_cons_self
    simp only [isGap, Bool.or_eq_true, beq_iff_eq] at hc
    obtain ((rfl | rfl) | rfl) | rfl := hc <;>
      exact endsNumber_cons (by decide) (by decide) (by decide) _

namespace Datum

theorem digits?_append {ds rest : List Char} (hds : Lexer.IsDigits ds)
    (hrest : Text.Stops Char.isDigit rest) : digits? (ds ++ rest) = some (ds, rest) := by
  rw [digits?, hrest.takeWhile_append hds.2, hrest.dropWhile_append hds.2]
  simp [hds.1]

theorem whole?_append {n : Numeral} (hn : n.Tidy) {rest : List Char}
    (hrest : Text.Stops Char.isDigit rest) : whole? (n.whole ++ rest) = some (n.whole, rest) := by
  rw [whole?, digits?_append n.isDigits hrest]
  by_cases hzero : n.whole.head? = some '0'
  · simp [hn.whole hzero]
  · simp [hzero]

theorem signedDigits?_append (e : Int) {rest : List Char}
    (hrest : Text.Stops Char.isDigit rest) :
    signedDigits? ((if e < 0 then '-' else '+') :: (Nat.toDigits 10 e.natAbs ++ rest)) =
      some (e, rest) := by
  have hdigits : Lexer.IsDigits (Nat.toDigits 10 e.natAbs) :=
    ⟨Nat.toDigits_ne_nil, Decimal.isDigit_of_mem_toDigits⟩
  have hread := digits?_append hdigits hrest
  split
  · next hneg =>
    have habs : -|e| = e := by rw [abs_of_neg hneg, neg_neg]
    simp [signedDigits?, hread, Decimal.ofDigits_toDigits, habs]
  · next hneg =>
    have habs : (e.natAbs : Int) = e := by omega
    simp [signedDigits?, hread, Decimal.ofDigits_toDigits, habs]

theorem exponent?_append (e : Option Int) {rest : List Char} (hrest : EndsNumber rest) :
    exponent? (e.elim [] exponentChars ++ rest) = some (e.getD 0, rest) := by
  cases e with
  | none =>
    have hletter : ¬ (rest.head? = some 'e' ∨ rest.head? = some 'E') := by
      rintro (h | h)
      · exact hrest.letter.head?_ne rfl h
      · exact hrest.letter.head?_ne rfl h
    exact if_neg hletter
  | some e => exact signedDigits?_append e hrest.digit

/-- A numeral and an exponent are read as the decimal that they stand for. -/
theorem decimal?_append {n : Numeral} (hn : n.Tidy) (e : Option Int) {rest : List Char}
    (hrest : EndsNumber rest) :
    decimal? (n.chars ++ (e.elim [] exponentChars ++ rest)) =
      some (n.scaled.shift (e.getD 0), rest) := by
  have hexponent := exponent?_append e hrest
  have hends := Decimal.endsNumeral_append e hrest.toEndsNumeral
  generalize e.elim [] exponentChars ++ rest = tail at hexponent hends
  obtain ⟨whole, fraction, hwhole, hfraction⟩ := n
  cases fraction with
  | none =>
    have hread := whole?_append hn hends.digit
    have hnone : fraction? tail = some ([], tail) := if_neg (hends.point.head?_ne rfl)
    simp only [Numeral.chars, decimal?]
    rw [hread]
    simp [hnone, hexponent, Numeral.scaled, Scaled.shift]
  | some cs =>
    have hpoint : Text.Stops Char.isDigit ('.' :: (cs ++ tail)) := Text.stops_cons.mpr (by decide)
    have hread := whole?_append hn hpoint
    have hcs : Lexer.IsDigits cs := ⟨fun h => hn.fraction (by simp [h]), hfraction cs rfl⟩
    have hsome : fraction? ('.' :: (cs ++ tail)) = some (cs, tail) :=
      digits?_append hcs hends.digit
    simp only [Numeral.chars, decimal?, List.append_assoc, List.cons_append]
    rw [hread]
    simp [hsome, hexponent, Numeral.scaled, Scaled.shift]

/-- A sign, a numeral and an exponent are read as the number that they stand for. -/
theorem number?_append {n : Numeral} (hn : n.Tidy) (negative : Bool) (e : Option Int)
    {rest : List Char} (hrest : EndsNumber rest) :
    number? (signChars negative ++ (n.chars ++ (e.elim [] exponentChars ++ rest))) =
      some (withSign negative (n.scaled.shift (e.getD 0)).nearest, rest) := by
  cases negative with
  | false =>
    have hsign := n.head?_chars_append_ne (e.elim [] exponentChars ++ rest)
      (show Char.isDigit '-' = false by decide)
    simp only [signChars, Bool.false_eq_true, if_false, List.nil_append]
    rw [number?, if_neg hsign, decimal?_append hn e hrest]
    rfl
  | true =>
    simp only [signChars, if_true, List.singleton_append]
    rw [number?, List.head?_cons, if_pos rfl, List.tail_cons, decimal?_append hn e hrest]
    rfl

/-! ## Values -/

theorem valueWithin_string (s : String) (depth : Nat) (rest : List Char) :
    valueWithin (depth + 1) ((string s).toList ++ rest) = some (.text s, rest) := by
  obtain ⟨cs, hcs, hread⟩ := readString?_string s rest
  rw [hcs, List.cons_append, valueWithin, if_pos rfl, hread]
  rfl

theorem valueWithin_null (depth : Nat) (rest : List Char) :
    valueWithin (depth + 1) ("null".toList ++ rest) = some (.null, rest) := rfl

theorem valueWithin_bool (b : Bool) (depth : Nat) (rest : List Char) :
    valueWithin (depth + 1) ((if b then "true" else "false").toList ++ rest) =
      some (.bool b, rest) := by
  cases b <;> rfl

/-- A digit or a sign starts a number. -/
theorem valueWithin_of_number {c : Char} (hc : c.isDigit = true ∨ c = '-') (depth : Nat)
    (cs : List Char) : valueWithin (depth + 1) (c :: cs) =
      (number? (c :: cs)).map fun r => (.number r.1, r.2) := by
  have hne : ∀ d, d.isDigit = false ∧ d ≠ '-' → c ≠ d := by
    rintro d ⟨hd, hd'⟩ rfl
    obtain hc | hc := hc
    · exact Bool.false_ne_true (hd.symm.trans hc)
    · exact hd' hc
  rw [valueWithin, if_neg (hne _ (by decide)), if_neg (hne _ (by decide)),
    if_neg (hne _ (by decide)), if_neg (hne _ (by decide)), if_neg (hne _ (by decide)),
    if_neg (hne _ (by decide))]

theorem valueWithin_number {n : Numeral} (hn : n.Tidy) (negative : Bool) (e : Option Int)
    (depth : Nat) {rest : List Char} (hrest : EndsNumber rest) :
    valueWithin (depth + 1)
        (signChars negative ++ (n.chars ++ (e.elim [] exponentChars ++ rest))) =
      some (.number (withSign negative (n.scaled.shift (e.getD 0)).nearest), rest) := by
  have hread := number?_append hn negative e hrest
  obtain ⟨c, cs, hchars, hc⟩ : ∃ c cs,
      signChars negative ++ (n.chars ++ (e.elim [] exponentChars ++ rest)) = c :: cs ∧
        (c.isDigit = true ∨ c = '-') := by
    obtain ⟨c, cs, hchars, hc⟩ := n.exists_cons
    cases negative with
    | false => exact ⟨c, _, by rw [hchars]; rfl, .inl hc⟩
    | true => exact ⟨'-', _, rfl, .inr rfl⟩
  rw [hchars] at hread ⊢
  rw [valueWithin_of_number hc, hread]
  rfl

/-- No value starts with a blank. -/
theorem stops_of_valueWithin {depth : Nat} {cs : List Char} {r : Datum × List Char}
    (h : valueWithin depth cs = some r) : Text.Stops isGap cs := by
  cases depth with
  | zero => cases h
  | succ depth =>
    cases cs with
    | nil => exact Text.stops_nil _
    | cons c cs =>
      refine Text.stops_cons.mpr (Bool.eq_false_iff.mpr fun hgap => ?_)
      simp only [isGap, Bool.or_eq_true, beq_iff_eq] at hgap
      obtain ((rfl | rfl) | rfl) | rfl := hgap <;> cases h

/-! ## Members -/

/-- Items that are read one by one are read together, if only a comma stands between two. -/
theorem itemsWithin_intercalate {α β : Type} {item : List Char → Option (α × List Char)}
    {text : β → List Char} {datum : β → α}
    (hitem : ∀ b rest, EndsNumber rest →
      item (skipBlanks (text b ++ rest)) = some (datum b, rest))
    {gap rest : List Char} (hgap : ∀ c ∈ gap, isGap c = true)
    (hrest : EndsNumber (gap ++ '}' :: rest)) {bs : List β} (hbs : bs ≠ []) {count : Nat}
    (hcount : bs.length ≤ count) :
    itemsWithin item '}' count ([','].intercalate (bs.map text) ++ (gap ++ '}' :: rest)) =
      some (bs.map datum, rest) := by
  induction bs generalizing count with
  | nil => exact absurd rfl hbs
  | cons b bs ih =>
    -- An item is followed by the blanks before the end if it is the last, and by a comma if not.
    obtain ⟨count, rfl⟩ := Nat.exists_eq_succ_of_ne_zero (Nat.ne_of_gt (Nat.lt_of_lt_of_le
      (Nat.succ_pos _) hcount))
    cases bs with
    | nil =>
      have hclose : skipBlanks (gap ++ '}' :: rest) = '}' :: rest :=
        skipBlanks_append hgap (Text.stops_cons.mpr (by decide))
      simp [itemsWithin, hitem b _ hrest, hclose]
    | cons b' bs =>
      have hcomma := @endsNumber_cons ',' (by decide) (by decide) (by decide)
      have hskip := @skipBlanks_cons ',' (by decide)
      have hmore := ih (by simp) (Nat.le_of_succ_le_succ hcount)
      rw [List.map_cons, List.map_cons, List.intercalate_cons_cons, List.append_assoc,
        List.append_assoc, List.singleton_append, ← List.map_cons, itemsWithin,
        hitem b _ (hcomma _)]
      simp only [hskip, if_true]
      rw [hmore]
      rfl

end Datum

end Respell.Json
