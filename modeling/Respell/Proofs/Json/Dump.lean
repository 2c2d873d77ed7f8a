-- SUMMARY: The JSON text of a scope is read back as the scope.
import Respell.Proofs.Decimal.Integers
import Respell.Proofs.Json.Reading

/-!
# Reading a scope back

On one line or on many, a scope is written as an object in which only the blanks differ. Reading it
gives the names in their order with what JSON can keep of their values: all of it, but for the sign
of zero and for numbers that are not finite. An integer of at most 53 bits is written as the program
prints it.
-/

namespace Respell.Json

open Decimal (Binary Style parts signChars exponentChars withSign unsignedZero leastFull)

/-! ## Integers -/

/-- The rational number that a finite number is. -/
def rational? (x : Float) : Option ℚ :=
  match parts x with
  | .finite negative b => some (if negative then -b.value else b.value)
  | _ => none

theorem maxExact_lt {n : ℕ} : n ≤ maxExact ↔ n < 2 * leastFull := by
  simp only [maxExact, leastFull]
  omega

/-- What an integer that is written as one is made of. -/
theorem exists_parts_of_exactInt? {x : Float} {i : ℤ} (h : exactInt? x = some i) :
    ∃ negative b n, parts x = .finite negative b ∧ b.value = (n : ℕ) ∧ n ≤ maxExact ∧
      i = if negative then -(n : ℤ) else n := by
  unfold exactInt? at h
  split at h
  · next negative b hparts =>
    split at h
    · next n hn =>
      split at h
      · next hle =>
        cases h
        exact ⟨negative, b, n, hparts, Binary.toNat?_eq_some_iff.mp hn, hle, rfl⟩
      · cases h
    · cases h
  · cases h

/-- An integer of at most 53 bits is taken for the integer that it is. -/
theorem exactInt?_of_rational? {x : Float} {i : ℤ} (hx : rational? x = some (i : ℚ))
    (hi : i.natAbs ≤ maxExact) : exactInt? x = some i := by
  unfold rational? at hx
  split at hx
  · next negative b hparts =>
    have hnonneg : 0 ≤ b.value := by
      rw [Binary.value]
      positivity
    have hsigned := Option.some.inj hx
    have hvalue : b.value = i.natAbs := by
      have habs := congrArg abs hsigned
      rw [Nat.cast_natAbs, Int.cast_abs, ← habs]
      cases negative <;> simp [abs_of_nonneg hnonneg]
    have hsign : (if negative then -(i.natAbs : ℤ) else i.natAbs) = i := by
      rw [hvalue] at hsigned
      split
      · next hneg =>
        rw [if_pos hneg] at hsigned
        exact_mod_cast hsigned
      · next hpos =>
        rw [if_neg hpos, Nat.cast_natAbs] at hsigned
        exact_mod_cast hsigned
    rw [exactInt?, hparts]
    simp only [Binary.toNat?_eq_some_iff.mpr hvalue, if_pos hi, hsign]
  · cases hx

theorem toList_toString_signed (negative : Bool) {n : ℕ} (hn : 0 < n) :
    (toString (if negative then -(n : ℤ) else n)).toList =
      signChars negative ++ Nat.toDigits 10 n := by
  cases negative with
  | false => exact Nat.toList_repr
  | true =>
    obtain ⟨k, rfl⟩ := Nat.exists_eq_succ_of_ne_zero hn.ne'
    have hneg : toString (-((k + 1 : ℕ) : ℤ)) = "-" ++ (k + 1).repr := rfl
    rw [if_pos rfl, hneg, String.toList_append, Nat.toList_repr]
    rfl

/-- An integer of at most 53 bits is written as it is printed. -/
theorem number_eq_write {x : Float} {i : ℤ} (h : exactInt? x = some i) :
    number x = Respell.numberStyle.write x := by
  obtain ⟨negative, b, n, hparts, hvalue, hn, rfl⟩ := exists_parts_of_exactInt? h
  have hnumber : number x = toString (if negative then -(n : ℤ) else n) := by
    rw [number, h]
  rw [hnumber]
  rcases Nat.eq_zero_or_pos b.m with hm | hm
  · have hzero : n = 0 := by
      have hcast : (n : ℚ) = 0 := by
        rw [← hvalue, Binary.value, hm]
        simp
      exact_mod_cast hcast
    rw [Style.write_zero rfl rfl hparts hm, hzero]
    cases negative <;> rfl
  · have hpos := Binary.pos_of_value_eq hm hvalue
    have hpositional : ∀ e, 0 ≤ e → e < 16 → Respell.numberStyle.positional e = true := by
      intro e hlow hhigh
      simp [Respell.numberStyle]
      omega
    apply String.toList_inj.mp
    rw [toList_toString_signed negative hpos,
      Style.toList_write_of_nat rfl hpositional hparts hm hvalue (maxExact_lt.mp hn)]

/-! ## Values -/

/-- What JSON keeps of a value: zero loses its sign, and a number that is not finite is null. -/
def Datum.ofValue : Value → Datum
  | .null => .null
  | .bool b => .bool b
  | .number x => if x.isFinite then .number (unsignedZero x) else .null
  | .text s => .text s

/-- A finite number is written in one of two styles. -/
theorem exists_style {x : Float} {negative : Bool} {b : Binary}
    (h : parts x = .finite negative b) : ∃ style : Style, number x = style.write x := by
  cases hexact : exactInt? x with
  | some i => exact ⟨_, number_eq_write hexact⟩
  | none =>
    refine ⟨numberStyle, ?_⟩
    rw [number, hexact, h]

/-- A finite number is written as a sign, a numeral and an exponent that read back as the number. -/
theorem exists_number {x : Float} {negative : Bool} {b : Binary}
    (h : parts x = .finite negative b) :
    ∃ (sign : Bool) (n : Numeral) (e : Option Int),
      (number x).toList = signChars sign ++ (n.chars ++ e.elim [] exponentChars) ∧
      n.Tidy ∧ unsignedZero x = withSign sign (n.scaled.shift (e.getD 0)).nearest := by
  -- Zero is written as an integer, so it loses its sign; any other number keeps it.
  rcases Nat.eq_zero_or_pos b.m with hm | hm
  · have hrational : rational? x = some ((0 : ℤ) : ℚ) := by
      rw [rational?, h]
      simp [Binary.value, hm]
    have hexact := exactInt?_of_rational? hrational (by decide)
    refine ⟨false, .zero, none, ?_, ⟨fun _ => rfl, by simp [Numeral.zero]⟩, ?_⟩
    · rw [number_eq_write hexact, Style.write_zero rfl rfl h hm]
      rfl
    · rw [Decimal.unsignedZero_of_zero h hm]
      rfl
  · obtain ⟨style, hstyle⟩ := exists_style h
    obtain ⟨n, e, htext, hvalue, htidy, -⟩ := style.exists_write h hm
    refine ⟨negative, n, e, ?_, htidy, ?_⟩
    · rw [hstyle, htext]
    · rw [Decimal.unsignedZero_of_pos h hm]
      exact hvalue

theorem number_eq_null {x : Float} (h : x.isFinite = false) : number x = "null" := by
  rw [← Bool.not_eq_true, Decimal.isFinite_iff_parts] at h
  cases hparts : parts x with
  | nan => simp [number, exactInt?, hparts]
  | infinite => simp [number, exactInt?, hparts]
  | finite negative b => exact absurd ⟨negative, b, hparts⟩ h

namespace Datum

/-- A value is read as what JSON keeps of it. -/
theorem valueWithin_value (v : Value) (depth : Nat) {rest : List Char} (hrest : EndsNumber rest) :
    valueWithin (depth + 1) ((value v).toList ++ rest) = some (.ofValue v, rest) := by
  cases v with
  | null => exact valueWithin_null depth rest
  | bool b => exact valueWithin_bool b depth rest
  | text s => exact valueWithin_string s depth rest
  | number x =>
    cases hfinite : x.isFinite with
    | false =>
      rw [value, number_eq_null hfinite, ofValue, hfinite]
      exact valueWithin_null depth rest
    | true =>
      obtain ⟨negative, b, hparts⟩ := Decimal.isFinite_iff_parts.mp hfinite
      obtain ⟨sign, n, e, htext, htidy, hvalue⟩ := exists_number hparts
      rw [value, htext, ofValue, hfinite, if_pos rfl, hvalue, List.append_assoc, List.append_assoc]
      exact valueWithin_number htidy sign e depth hrest

end Datum

/-! ## Objects -/

/-- Where blanks stand in an object. -/
structure Spacing where
  /-- before a name -/
  name : List Char
  /-- before a value -/
  value : List Char
  /-- before the closing brace, unless there are no members -/
  close : List Char
  name_gap : ∀ c ∈ name, isGap c = true
  value_gap : ∀ c ∈ value, isGap c = true
  close_gap : ∀ c ∈ close, isGap c = true

namespace Spacing

/-- A name with its value. -/
def member (sp : Spacing) (e : String × Value) : List Char :=
  sp.name ++ ((string e.1).toList ++ ':' :: (sp.value ++ (Json.value e.2).toList))

/-- Names with their values, in braces. -/
def object (sp : Spacing) (entries : List (String × Value)) : List Char :=
  '{' :: ([','].intercalate (entries.map sp.member) ++
    ((if entries.isEmpty then [] else sp.close) ++ ['}']))

theorem skipBlanks_member (sp : Spacing) (e : String × Value) (rest : List Char) :
    ∃ cs, skipBlanks (sp.member e ++ rest) = '"' :: cs ∧ readString? cs =
      some (e.1, ':' :: (sp.value ++ ((Json.value e.2).toList ++ rest))) := by
  obtain ⟨cs, hcs, hread⟩ :=
    readString?_string e.1 (':' :: (sp.value ++ ((Json.value e.2).toList ++ rest)))
  refine ⟨_, ?_, hread⟩
  rw [member, hcs]
  simp only [List.append_assoc, List.cons_append]
  exact skipBlanks_append sp.name_gap (Text.stops_cons.mpr (by decide))

/-- A member of an object is read as its name with what JSON keeps of the value. -/
theorem member?_member (sp : Spacing) (depth : Nat) (e : String × Value) (rest : List Char)
    (hrest : EndsNumber rest) :
    Datum.member? (Datum.valueWithin (depth + 1)) (skipBlanks (sp.member e ++ rest)) =
      some ((e.1, .ofValue e.2), rest) := by
  obtain ⟨cs, hcs, hread⟩ := sp.skipBlanks_member e rest
  have hdatum := Datum.valueWithin_value e.2 depth hrest
  have hcolon := @skipBlanks_cons ':' (by decide)
  have hskip := skipBlanks_append sp.value_gap (Datum.stops_of_valueWithin hdatum)
  rw [hcs, Datum.member?]
  simp [hread, hcolon, hskip, hdatum]

theorem head?_skipBlanks_members (sp : Spacing) (e : String × Value)
    (entries : List (String × Value)) (rest : List Char) :
    (skipBlanks ([','].intercalate ((e :: entries).map sp.member) ++ rest)).head? = some '"' := by
  obtain ⟨more, hmore⟩ : ∃ more,
      [','].intercalate ((e :: entries).map sp.member) ++ rest = sp.member e ++ more := by
    cases entries with
    | nil => exact ⟨rest, by simp⟩
    | cons e' entries =>
      rw [List.map_cons, List.map_cons, List.intercalate_cons_cons, List.append_assoc,
        List.append_assoc]
      exact ⟨_, rfl⟩
  obtain ⟨cs, hcs, -⟩ := sp.skipBlanks_member e more
  rw [hmore, hcs]
  rfl

theorem length_le (sp : Spacing) (entries : List (String × Value)) :
    entries.length ≤ ([','].intercalate (entries.map sp.member)).length := by
  induction entries with
  | nil => simp
  | cons e entries ih =>
    have hmember : 1 ≤ (sp.member e).length := by
      simp only [member, List.length_append, List.length_cons]
      omega
    cases entries with
    | nil => simpa using hmember
    | cons e' entries =>
      rw [List.map_cons, List.map_cons, List.intercalate_cons_cons, ← List.map_cons,
        List.length_append, List.length_append, List.length_cons]
      omega

/-- The members of an object are read in their order. -/
theorem items?_members (sp : Spacing) (depth : Nat) (entries : List (String × Value)) :
    Datum.items? (Datum.member? (Datum.valueWithin (depth + 1))) '}'
        ([','].intercalate (entries.map sp.member) ++
          ((if entries.isEmpty then [] else sp.close) ++ ['}'])) =
      some (entries.map fun e => (e.1, .ofValue e.2), []) := by
  cases entries with
  | nil => rfl
  | cons e entries =>
    have hlength := sp.length_le (e :: entries)
    have hfirst := sp.head?_skipBlanks_members e entries (sp.close ++ ['}'])
    rw [List.isEmpty_cons, if_neg Bool.false_ne_true, Datum.items?, hfirst, if_neg (by decide)]
    refine Datum.itemsWithin_intercalate (sp.member?_member depth) sp.close_gap
      (endsNumber_of_gap sp.close_gap []) (List.cons_ne_nil e entries) ?_
    rw [List.length_append]
    omega

/-- An object is read as its members. -/
theorem read?_object (sp : Spacing) {text : String} {entries : List (String × Value)}
    (h : text.toList = sp.object entries) :
    Datum.read? text = some (.object (entries.map fun e => (e.1, .ofValue e.2))) := by
  obtain ⟨depth, hdepth⟩ : ∃ depth, text.length = depth + 2 := by
    refine Nat.exists_eq_add_of_le' ?_
    rw [← String.length_toList, h, object, List.length_cons, List.length_append, List.length_append,
      List.length_singleton]
    omega
  have hstart : skipBlanks (sp.object entries) = sp.object entries :=
    skipBlanks_cons (by decide) _
  have hobject : Datum.valueWithin (depth + 2) (sp.object entries) =
      some (.object (entries.map fun e => (e.1, .ofValue e.2)), []) := by
    have hopen : ∀ cs, Datum.valueWithin (depth + 2) ('{' :: cs) =
        (Datum.items? (Datum.member? (Datum.valueWithin (depth + 1))) '}' cs).map
          fun r => (.object r.1, r.2) := fun cs => rfl
    rw [object, hopen, sp.items?_members depth entries]
    rfl
  rw [Datum.read?, hdepth, h, hstart, hobject]
  rfl

/-- No blanks at all. -/
def tight : Spacing :=
  ⟨[], [], [], by simp, by simp, by simp⟩

/-- A line for each name. -/
def lines : Spacing :=
  ⟨['\n', ' ', ' '], [' '], ['\n'], by simp [isGap], by simp [isGap], by simp [isGap]⟩

theorem toList_compact (s : Scope) : (compact s).toList = tight.object s.entries := by
  have hmember : tight.member = fun e => (string e.1 ++ ":" ++ Json.value e.2).toList := by
    funext e
    simp [member, tight]
  rw [object, hmember]
  simp [compact, tight, Function.comp_def]

/-- What follows each separator can as well stand in front of each item. -/
theorem append_intercalate {α : Type} (sep gap : List α) {l : List (List α)} (hl : l ≠ []) :
    gap ++ (sep ++ gap).intercalate l = sep.intercalate (l.map (gap ++ ·)) := by
  induction l with
  | nil => exact absurd rfl hl
  | cons a l ih =>
    cases l with
    | nil => simp
    | cons b l =>
      rw [List.map_cons, List.map_cons, List.intercalate_cons_cons, List.intercalate_cons_cons,
        ← List.map_cons, ← ih (by simp)]
      simp

theorem toList_pretty (s : Scope) : (pretty s).toList = lines.object s.entries := by
  have hmember : lines.member =
      fun e => ['\n'] ++ ("  " ++ string e.1 ++ ": " ++ Json.value e.2).toList := by
    funext e
    simp [member, lines]
  rw [pretty, object, hmember]
  split
  · next hempty =>
    rw [List.isEmpty_iff.mp hempty]
    rfl
  · next hne =>
    have hentries : s.entries.map
        (fun e => ("  " ++ string e.1 ++ ": " ++ Json.value e.2).toList) ≠ [] := by
      simpa using hne
    have hmembers := append_intercalate [','] ['\n'] hentries
    rw [List.map_map] at hmembers
    rw [← Function.comp_def (fun cs : List Char => ['\n'] ++ cs), ← hmembers]
    simp [lines, Function.comp_def]

end Spacing

/-- Reading the JSON text of a scope, on one line or on many, gives an object with the names of the
    scope in their order, each once, and what JSON keeps of their values. An integer of at most 53
    bits is converted exactly and written as it is printed. -/
theorem dump_reads_back :
    (∀ s : Scope, ∃ members : List (String × Datum),
      Datum.read? (compact s) = some (.object members) ∧
      Datum.read? (pretty s) = some (.object members) ∧
      members.map Prod.fst = s.names ∧ (members.map Prod.fst).Nodup ∧
      members.map Prod.snd = s.entries.map fun e => Datum.ofValue e.2) ∧
    (∀ (x : Float) (i : ℤ), rational? x = some (i : ℚ) → i.natAbs ≤ 2 ^ 53 - 1 →
      exactInt? x = some i ∧ number x = Respell.numberStyle.write x) := by
  constructor
  · intro s
    have hnames : (s.entries.map fun e => (e.1, Datum.ofValue e.2)).map Prod.fst = s.names := by
      rw [List.map_map]
      rfl
    refine ⟨s.entries.map fun e => (e.1, Datum.ofValue e.2),
      Spacing.tight.read?_object (Spacing.toList_compact s),
      Spacing.lines.read?_object (Spacing.toList_pretty s), hnames, ?_, ?_⟩
    · rw [hnames]
      exact s.nodup
    · rw [List.map_map]
      rfl
  · intro x i hx hi
    have hexact := exactInt?_of_rational? hx hi
    exact ⟨hexact, number_eq_write hexact⟩

theorem dump_reads_back_escapes :
    (∃ members, Datum.read? (compact ⟨[("\"", .text "\x01😀"), ("n", .number (-0))], by simp⟩) =
        some (.object members) ∧ members.map Prod.fst = ["\"", "n"] ∧
      members.map Prod.snd = [.text "\x01😀", .number 0]) ∧
    rational? (-9007199254740991) = some ((-9007199254740991 : ℤ) : ℚ) ∧
    exactInt? (-9007199254740991) = some (-9007199254740991) ∧
    number (-9007199254740991) = Respell.numberStyle.write (-9007199254740991) := by
  have hrational : rational? (-9007199254740991) = some ((-9007199254740991 : ℤ) : ℚ) := by
    have hparts : parts (-9007199254740991) = .finite true ⟨9007199254740991, 0⟩ := by decide
    rw [rational?, hparts]
    norm_num [Binary.value]
  obtain ⟨members, hcompact, -, hnames, -, hvalues⟩ :=
    dump_reads_back.1 ⟨[("\"", .text "\x01😀"), ("n", .number (-0))], by simp⟩
  exact ⟨⟨members, hcompact, hnames, hvalues⟩, hrational,
    dump_reads_back.2 (-9007199254740991) (-9007199254740991) hrational (by decide)⟩

end Respell.Json
