-- SUMMARY: The text of a number, run as a program, has the number as its value.
import Respell.Script
import Respell.Proofs.Decimal.Bits
import Respell.Proofs.Decimal.Layout
import Respell.Proofs.Parsing.Places

/-!
# Printed numbers

A number without an exponent is a sign and a numeral, which the lexer reads as two tokens, the
parser as a negation and the evaluator as the number again. The exponent of a layout is no part of a
numeral, and not-a-number and infinity are spelled as names that nothing defines, so these texts
fail. As digits and exponent can be told from every text, no two numbers share one.
-/

namespace Respell

open Decimal (Binary Scaled Style parts signChars exponentChars unsignedZero)
open Lexer (Tiling Spells Complete)

/-! ## Programs of one expression -/

theorem Machine.run_expression (m : Machine) (steps : Nat) (e : Expr) :
    m.run (steps + 2) ⟨[.expr e]⟩ = m.eval e := by
  change (m.eval e).andThen (fun v m => .done v m) = _
  cases m.eval e <;> rfl

theorem Script.run_expression {table : Table} {text : List Char} {ts : List Token} {e : Expr}
    {s : Span} (htiling : Tiling table 0 text (ts ++ [⟨.eof, s⟩])) (hwritten : e.Written ts)
    (hreads : Parser.ReadsWhole Parser.loneRoom e ts) (steps : Nat) :
    Script.run (steps + 2) table (String.ofList text) =
      ofRun (ts.length + 1) 1 (Machine.start.eval e) := by
  have htokens : tokenize table (String.ofList text) = .ok (ts ++ [⟨.eof, s⟩]) := by
    rw [tokenize_eq_ok_iff, String.toList_ofList]
    exact htiling
  rw [Script.run, htokens]
  simp only [Program.parse_expression hwritten hreads s, Machine.run_expression, List.length_append]
  rfl

/-! ## A lexeme and its sign -/

/-- The expression, or its negation. -/
def Expr.signed (negative : Bool) (s : Span) (e : Expr) : Expr :=
  if negative then .unary .negate e s else e

/-- Only the sign itself starts with its character. -/
theorem Lexer.complete_sign {s : Symbol} (hs : s = .plus ∨ s = .minus) (rest : List Char) :
    Complete (.symbol s) s.chars rest := by
  refine ⟨fun t ht => ?_, fun hslash => ?_⟩
  · have hhead : ∀ t ∈ Symbol.all, ∀ s ∈ [Symbol.plus, .minus],
        t.chars.head? = s.chars.head? → t.chars.length ≤ s.chars.length := by decide
    refine hhead t t.mem_all s (by simpa using hs) ?_
    obtain ⟨more, hmore⟩ := ht
    have := congrArg List.head? hmore
    rwa [List.head?_append_of_ne_nil _ t.chars_ne_nil,
      List.head?_append_of_ne_nil _ s.chars_ne_nil] at this
  · subst hslash
    obtain h | h := hs <;> cases h

/-- A lexeme that is an expression is read as it, or as its negation if a minus stands before. -/
theorem exists_signed {table : Table} {kind : Kind} {text rest : List Char} {tokens : List Token}
    {atom : Span → Expr} (hatom : ∀ s, kind.atom? s = some (atom s))
    (hspells : Spells table kind text) (hcomplete : Complete kind text rest) (negative : Bool)
    (htail : Tiling table (Text.size (signChars negative ++ text)) rest tokens) :
    ∃ ts span whole, Tiling table 0 (signChars negative ++ (text ++ rest)) (ts ++ tokens) ∧
      (Expr.signed negative whole (atom span)).Written ts ∧
      Parser.ReadsWhole Parser.loneRoom (Expr.signed negative whole (atom span)) ts := by
  have hread : ∀ s, Parser.ReadsAs (maxNesting - 3) [] (atom s) [⟨kind, s⟩] :=
    fun s => .atom (hatom s)
  cases negative with
  | false =>
    have hrest : Tiling table (0 + Text.size text) rest tokens := by simpa [signChars] using htail
    refine ⟨[⟨kind, ⟨0, 0 + Text.size text⟩⟩], _, default, .lexeme hspells hcomplete hrest,
      .atom (hatom _), ?_⟩
    exact ((hread _).mono (Nat.le_succ _)).whole List.nil_suffix
  | true =>
    have hrest : Tiling table (0 + 1 + Text.size text) rest tokens := htail
    have hsign := Lexer.complete_sign (.inr rfl) (text ++ rest)
    refine ⟨[⟨.symbol .minus, ⟨0, 0 + 1⟩⟩, ⟨kind, ⟨0 + 1, 0 + 1 + Text.size text⟩⟩], _, _,
      .lexeme (.symbol .minus) hsign (.lexeme hspells hcomplete hrest),
      .unary rfl (.atom (hatom _)), ?_⟩
    exact (Parser.ReadsAs.unary rfl (hread _)).whole List.nil_suffix

theorem Expr.eval_signed_number (negative : Bool) (s whole : Span) (x : Float)
    (env : Environment) : (Expr.signed negative whole (.number x s)).eval env =
      (.ok (.number (Decimal.withSign negative x)), env) := by
  cases negative <;> rfl

theorem Expr.eval_signed_name (negative : Bool) (s whole : Span) {x : String} {env : Environment}
    (h : env.lookup x = none) : (Expr.signed negative whole (.name x s)).eval env =
      (.error (.undefinedVariable x s), env) := by
  cases negative <;> simp [signed, Expr.eval, h]

/-! ## Running the texts of numbers -/

/-- A numeral, or its negative, is a program with the number as its value. -/
theorem Script.run_numeral (table : Table) (negative : Bool) (n : Numeral) (steps : Nat) :
    ∃ tokens, Script.run (steps + 2) table (String.ofList (signChars negative ++ n.chars)) =
      ⟨.finished (.number (Decimal.withSign negative n.scaled.nearest)) .empty, #[], some tokens,
        some 1⟩ := by
  have hspells : Spells table (.number n.scaled.nearest) n.chars := n.spells table
  have hcomplete : Complete (.number n.scaled.nearest) n.chars [] := hspells.complete (by simp)
  obtain ⟨ts, span, whole, htiling, hwritten, hreads⟩ :=
    exists_signed (fun s => rfl) hspells hcomplete negative (.eof .nil)
  rw [List.append_nil] at htiling
  rw [Script.run_expression htiling hwritten hreads, Machine.eval, Expr.eval_signed_number]
  exact ⟨_, rfl⟩

/-- A name, or its negative, fails as a program. -/
theorem Script.run_name {table : Table} (negative : Bool) {word : List Char}
    (hword : Text.isWordChars word = true) (hl : table.lookup (String.ofList word) = none)
    (steps : Nat) : ∃ err, (Script.run (steps + 2) table
      (String.ofList (signChars negative ++ word))).ending = .failed err := by
  have hspells : Spells table (.word (String.ofList word)) word := .word hword hl
  have hcomplete : Complete (.word (String.ofList word)) word [] := hspells.complete (by simp)
  obtain ⟨ts, span, whole, htiling, hwritten, hreads⟩ :=
    exists_signed (fun s => rfl) hspells hcomplete negative (.eof .nil)
  rw [List.append_nil] at htiling
  rw [Script.run_expression htiling hwritten hreads, Machine.eval, Expr.eval_signed_name _ _ _ rfl]
  exact ⟨_, rfl⟩

/-- The exponent is read as a name, a sign and a number. -/
theorem exists_tiling_exponent (e : Int) (offset : Nat) :
    ∃ t rest s, Tiling .english offset (exponentChars e) (t :: rest ++ [⟨.eof, s⟩]) ∧
      t.kind = .word "e" := by
  unfold exponentChars
  generalize hds : Nat.toDigits 10 e.natAbs = ds
  have hdigits : Spells .english (.number (Decimal.read ds [])) ds := by
    rw [← hds]
    exact .whole ⟨Nat.toDigits_ne_nil, Decimal.isDigit_of_mem_toDigits⟩
  have hend : Complete (.number (Decimal.read ds [])) ds [] := hdigits.complete (by simp)
  have hnumber : ∀ offset, ∃ t s, Tiling .english offset ds [t, ⟨.eof, s⟩] := by
    intro offset
    have hlast := Tiling.lexeme hdigits hend (@Tiling.eof .english (offset + Text.size ds) [] .nil)
    rw [List.append_nil] at hlast
    exact ⟨_, _, hlast⟩
  have hsign : ∀ s : Symbol, s = .plus ∨ s = .minus → ∀ offset, ∃ rest s',
      Tiling .english offset (s.chars ++ ds) (rest ++ [⟨.eof, s'⟩]) := by
    intro s hs offset
    obtain ⟨t, s', hlast⟩ := hnumber (offset + Text.size s.chars)
    exact ⟨[_, t], s', .lexeme (.symbol s) (Lexer.complete_sign hs ds) hlast⟩
  have hname : Spells .english (.word "e") ['e'] := .word (by decide) (by decide)
  split
  · obtain ⟨rest, s, htail⟩ := hsign .minus (.inr rfl) (offset + Text.size ['e'])
    exact ⟨_, rest, s, .lexeme hname (Text.stops_cons.mpr (by decide)) htail, rfl⟩
  · obtain ⟨rest, s, htail⟩ := hsign .plus (.inl rfl) (offset + Text.size ['e'])
    exact ⟨_, rest, s, .lexeme hname (Text.stops_cons.mpr (by decide)) htail, rfl⟩

/-- A numeral with an exponent fails as a program. -/
theorem Script.run_exponent (negative : Bool) (n : Numeral) (e : Int) (steps : Nat) :
    ∃ err, (Script.run steps .english
      (String.ofList (signChars negative ++ (n.chars ++ exponentChars e)))).ending =
        .failed err := by
  have hspells := n.spells .english
  have hcomplete : Complete (.number n.scaled.nearest) n.chars (exponentChars e) :=
    ⟨Text.stops_cons.mpr (by decide), fun _ => Text.stops_cons.mpr (by decide)⟩
  obtain ⟨t, rest, s, htail, ht⟩ :=
    exists_tiling_exponent e (Text.size (signChars negative ++ n.chars))
  obtain ⟨ts, span, whole, htiling, hwritten, hreads⟩ :=
    exists_signed (fun s => rfl) hspells hcomplete negative htail
  have htokens : tokenize .english (String.ofList
      (signChars negative ++ (n.chars ++ exponentChars e))) =
        .ok (ts ++ (t :: rest ++ [⟨.eof, s⟩])) := by
    rw [tokenize_eq_ok_iff, String.toList_ofList]
    exact htiling
  rw [Script.run, htokens]
  simp only [Program.parse_before_word hwritten hreads ht]
  exact ⟨_, rfl⟩

/-! ## Numbers as programs -/

/-- The number is zero, or finite with the exponent of its shortest digits from -6 to 20. -/
def IsPlain (x : Float) : Prop :=
  ∃ negative b, parts x = .finite negative b ∧
    (b.m = 0 ∨ -6 ≤ (b.shortest numberStyle.tie).scientific.exponent ∧
      (b.shortest numberStyle.tie).scientific.exponent ≤ 20)

/-- The text of a plain number has it as its value, but zero without its sign. -/
theorem Script.run_plain {x : Float} (hx : IsPlain x) (steps : Nat) :
    ∃ tokens, Script.run (steps + 2) .english (numberStyle.write x) =
      ⟨.finished (.number (unsignedZero x)) .empty, #[], some tokens, some 1⟩ := by
  obtain ⟨negative, b, hparts, hb⟩ := hx
  rcases Nat.eq_zero_or_pos b.m with hm | hm
  · have hrun := Script.run_numeral .english false .zero steps
    rw [Style.write_zero rfl rfl hparts hm, Decimal.unsignedZero_of_zero hparts hm]
    exact hrun
  · obtain ⟨n, e, htext, hvalue, -, he⟩ := numberStyle.exists_write hparts hm
    rw [if_pos (numberStyle_positional_iff.mpr (hb.resolve_left hm.ne'))] at he
    subst he
    have hwrite : numberStyle.write x = String.ofList (signChars negative ++ n.chars) := by
      rw [← String.ofList_toList (s := numberStyle.write x), htext, Option.elim_none,
        List.append_nil]
    have hx : x = Decimal.withSign negative n.scaled.nearest := by
      simpa using hvalue
    rw [Decimal.unsignedZero_of_pos hparts hm, hwrite, hx]
    exact Script.run_numeral .english negative n steps

/-- The text of a number that is not plain fails. -/
theorem Script.run_not_plain {x : Float} (hx : ¬ IsPlain x) (steps : Nat) :
    ∃ err, (Script.run (steps + 2) .english (numberStyle.write x)).ending = .failed err := by
  cases hparts : parts x with
  | nan =>
    have hwrite : numberStyle.write x = String.ofList (signChars false ++ "NaN".toList) := by
      rw [Style.write, hparts]
      rfl
    rw [hwrite]
    exact Script.run_name false (by decide) (by decide) steps
  | infinite negative =>
    have hwrite : numberStyle.write x =
        String.ofList (signChars negative ++ "Infinity".toList) := by
      rw [Style.write, hparts]
      cases negative <;> rfl
    rw [hwrite]
    exact Script.run_name negative (by decide) (by decide) steps
  | finite negative b =>
    have hm : 0 < b.m := Nat.pos_of_ne_zero fun hm => hx ⟨negative, b, hparts, .inl hm⟩
    obtain ⟨n, e, htext, -, -, he⟩ := numberStyle.exists_write hparts hm
    rw [if_neg fun hpositional =>
      hx ⟨negative, b, hparts, .inr (numberStyle_positional_iff.mp hpositional)⟩] at he
    subst he
    rw [← String.ofList_toList (s := numberStyle.write x), htext]
    exact Script.run_exponent negative n _ _

/-! ## Different numbers have different texts -/

theorem signChars_append_inj {negative negative' : Bool} {cs cs' : List Char}
    (hcs : cs.head? ≠ some '-') (hcs' : cs'.head? ≠ some '-')
    (h : signChars negative ++ cs = signChars negative' ++ cs') :
    negative = negative' ∧ cs = cs' := by
  cases negative <;> cases negative'
  · exact ⟨rfl, h⟩
  · exact absurd (congrArg List.head? h) hcs
  · exact absurd (congrArg List.head? h.symm) hcs'
  · exact ⟨rfl, (List.cons.inj h).2⟩

/-- What stands behind the sign of a number. -/
inductive NumberBody (x : Float) (negative : Bool) : List Char → Prop
  | infinity (h : parts x = .infinite negative) : NumberBody x negative "Infinity".toList
  | digits {n : Numeral} {e : Option Int}
      (h : x = Decimal.withSign negative (n.scaled.shift (e.getD 0)).nearest) :
      NumberBody x negative (n.chars ++ e.elim [] exponentChars)

theorem NumberBody.head?_ne {x : Float} {negative : Bool} {cs : List Char}
    (h : NumberBody x negative cs) : cs.head? ≠ some '-' := by
  cases h with
  | infinity => decide
  | digits => exact Numeral.head?_chars_append_ne _ _ (by decide)

theorem NumberBody.injective {x y : Float} {negative : Bool} {cs : List Char}
    (hx : NumberBody x negative cs) (hy : NumberBody y negative cs) : x = y := by
  have hapart : ∀ (n : Numeral) rest, n.chars ++ rest ≠ "Infinity".toList := by
    intro n rest h
    exact n.head?_chars_append_ne rest (show Char.isDigit 'I' = false by decide) (by rw [h]; decide)
  -- A digit is not the first letter of infinity, and digits and exponent can be told apart.
  generalize hcs : cs = cs' at hy
  cases hx with
  | infinity hx =>
    cases hy with
    | infinity hy => exact Decimal.parts_injective (hx.trans hy.symm) (by simp [hx])
    | digits => exact absurd hcs.symm (hapart _ _)
  | digits hx =>
    cases hy with
    | infinity => exact absurd hcs (hapart _ _)
    | digits hy =>
      obtain ⟨hn, he⟩ := Decimal.numeral_append_inj (Decimal.endsNumeral_exponent _)
        (Decimal.endsNumeral_exponent _) hcs
      rw [hx, hy, hn, Decimal.exponent_inj he]

theorem exists_numberBody {x : Float} (hnan : x.isNaN = false) (hzero : x ≠ 0) (hneg : x ≠ -0) :
    ∃ negative cs, (numberStyle.write x).toList = signChars negative ++ cs ∧
      NumberBody x negative cs := by
  cases hparts : parts x with
  | nan => exact absurd (Decimal.isNaN_iff_parts.mpr hparts) (by rw [hnan]; decide)
  | infinite negative =>
    refine ⟨negative, _, ?_, .infinity hparts⟩
    rw [Style.write, hparts]
    cases negative <;> rfl
  | finite negative b =>
    have hm : 0 < b.m := by
      refine Nat.pos_of_ne_zero fun hm => ?_
      have hx := Decimal.eq_zero_of_parts hparts hm
      cases negative
      · exact hzero hx
      · exact hneg hx
    obtain ⟨n, e, htext, hvalue, -⟩ := numberStyle.exists_write hparts hm
    exact ⟨negative, _, htext, .digits hvalue⟩

/-- Apart from not-a-number and the zeros, no two numbers are written alike. -/
theorem write_injOn :
    Set.InjOn numberStyle.write {x | x.isNaN = false ∧ x ≠ 0 ∧ x ≠ -0} := by
  rintro x ⟨hx, hx0, hx0'⟩ y ⟨hy, hy0, hy0'⟩ hxy
  obtain ⟨negative, cs, htext, hbody⟩ := exists_numberBody hx hx0 hx0'
  obtain ⟨negative', cs', htext', hbody'⟩ := exists_numberBody hy hy0 hy0'
  rw [hxy, htext'] at htext
  obtain ⟨rfl, rfl⟩ := signChars_append_inj hbody'.head?_ne hbody.head?_ne htext
  exact hbody.injective hbody'

/-- Running the text of a number gives the number back exactly if it is zero or written without an
    exponent, only that zero comes back without its sign, and fails otherwise. So numbers that are
    neither zero nor not-a-number can be told by their texts. -/
theorem Script.run_printed_number :
    (∀ x steps, IsPlain x → ∃ tokens, Script.run (steps + 2) .english (numberStyle.write x) =
      ⟨.finished (.number (unsignedZero x)) .empty, #[], some tokens, some 1⟩) ∧
    (∀ x steps, ¬ IsPlain x → ∃ err,
      (Script.run (steps + 2) .english (numberStyle.write x)).ending = .failed err) ∧
    Set.InjOn numberStyle.write {x | x.isNaN = false ∧ x ≠ 0 ∧ x ≠ -0} :=
  ⟨fun _ steps hx => Script.run_plain hx steps, fun _ steps hx => Script.run_not_plain hx steps,
    write_injOn⟩

theorem Script.run_printed_number_at_bounds :
    (IsPlain (-0.000001) ∧ numberStyle.write (-0.000001) = "-0.000001" ∧
      ∃ tokens, Script.run 2 .english (numberStyle.write (-0.000001)) =
        ⟨.finished (.number (-0.000001)) .empty, #[], some tokens, some 1⟩) ∧
    (¬ IsPlain 1e21 ∧ numberStyle.write 1e21 = "1e+21" ∧
      ∃ err, (Script.run 2 .english (numberStyle.write 1e21)).ending = .failed err) := by
  have hplain : IsPlain (-0.000001) :=
    ⟨true, ⟨4722366482869645, -72⟩, by decide, .inr (by decide +kernel)⟩
  have hnot : ¬ IsPlain 1e21 := by
    rintro ⟨negative, b, hparts, hb⟩
    have hparts' : parts 1e21 = .finite false ⟨7629394531250000, 17⟩ := by decide
    cases hparts.symm.trans hparts'
    revert hb
    decide +kernel
  obtain ⟨tokens, hrun⟩ := Script.run_printed_number.1 (-0.000001) 0 hplain
  rw [show unsignedZero (-0.000001) = -0.000001 by decide] at hrun
  exact ⟨⟨hplain, by decide +kernel, tokens, hrun⟩,
    hnot, by decide +kernel, Script.run_printed_number.2.1 1e21 0 hnot⟩

end Respell
