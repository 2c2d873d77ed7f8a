-- SUMMARY: Every error of a script points into its source, at what caused it.
import Respell.Script
import Respell.Proofs.Lexing.Faults
import Respell.Proofs.Running.Blame
import Respell.Proofs.Spans

/-!
# Where the errors of a script point

A script fails in one of three stages. An error of the lexer points at the characters that it could
not read, an error of the parser at a token or at the target of an assignment, and an error of the
run at an expression of the program. All of these are pieces of the source, and only the end of the
input is an empty one.
-/

namespace Respell

/-! ## Errors of the lexer -/

namespace Lexer

open Text (size)

/-- There is some text at the span. -/
def Occupied (source : List Char) (span : Span) : Prop :=
  ∃ before text after, Slice source span before text after ∧ text ≠ []

theorem Occupied.start_lt {source : List Char} {span : Span} (h : Occupied source span) :
    span.start < span.stop := by
  obtain ⟨before, text, after, hslice, htext⟩ := h
  have hpos := List.length_pos_iff.mpr htext
  have hsize := Text.length_le_size text
  rw [hslice.start_eq, hslice.stop_eq]
  omega

theorem Slice.le_size {source before text after : List Char} {span : Span}
    (h : Slice source span before text after) :
    span.start ≤ span.stop ∧ span.stop ≤ size source := by
  rw [h.start_eq, h.stop_eq, h.source_eq, Text.size_append, Text.size_append]
  omega

theorem occupied_of_tokensFrom {table : Table} (cs : List Char) {before : List Char}
    {err : LexError} (h : tokensFrom table (size before) cs = .error err) :
    Occupied (before ++ cs) err.span := by
  obtain ⟨finds, hfinds⟩ := exists_scanned table cs (size before)
  rw [hfinds.tokensFrom_eq] at h
  obtain ⟨front, gap, c, rest, body, rfl, -, -, hfault⟩ := hfinds.exists_fault h
  refine ⟨before ++ (front ++ gap), [c], rest, ⟨by simp, ?_, ?_⟩, by simp⟩
  · simp only [hfault.span_eq, Text.size_append]
  · simp only [hfault.span_eq, Text.size_append, Text.size_cons, Text.size_nil, Nat.add_zero]

end Lexer

/-! ## Errors of the parser and of the run -/

section Tokens

variable {table : Table} {source : String} {tokens : List Token}

theorem Expr.Stands.occupied {e : Expr} (htiling : Lexer.Tiling table 0 source.toList tokens)
    (h : e.Stands tokens) : Lexer.Occupied source.toList e.span := by
  obtain ⟨before, ts, after, rfl, hwritten, -, -⟩ := h
  have hcovered := hwritten.covered htiling.ordered_infix
  obtain ⟨left, text, right, hslice, htext, -⟩ := hcovered.slice htiling hwritten.isEof
  exact ⟨left, text, right, hslice, htext⟩

/-- A token is some text, or it is the end of the input. -/
theorem Lexer.Tiling.occupied_or_eof (htiling : Lexer.Tiling table 0 source.toList tokens)
    {t : Token} (ht : t ∈ tokens) : Lexer.Occupied source.toList t.span ∨
      t.span = ⟨source.utf8ByteSize, source.utf8ByteSize⟩ := by
  by_cases hk : t.kind = .eof
  · obtain ⟨body, rfl, hbody⟩ := htiling.eof_last
    rcases List.mem_append.mp ht with hmem | hmem
    · exact absurd hk (hbody t hmem)
    · rw [List.mem_singleton.mp hmem, Nat.zero_add, Text.size_toList]
      exact .inr rfl
  · obtain ⟨before, text, after, hslice, hspells, -⟩ := htiling.slices [] rfl t ht hk
    obtain ⟨c, cs, rfl, -⟩ := hspells.exists_cons
    exact .inl ⟨before, c :: cs, after, hslice, by simp⟩

theorem ParseError.PointsInto.occupied_or_eof {err : ParseError}
    (htiling : Lexer.Tiling table 0 source.toList tokens) (h : err.PointsInto tokens) :
    Lexer.Occupied source.toList err.span ∨
      err.span = ⟨source.utf8ByteSize, source.utf8ByteSize⟩ := by
  cases h with
  | token ht _ => exact htiling.occupied_or_eof ht
  | @target before ts after e t hall hwritten ht =>
    -- The sign stands right after the target.
    rw [hall, show ts ++ t :: after = (ts ++ [t]) ++ after by simp] at htiling
    have hordered := htiling.ordered_infix
    have hcovered := hwritten.covered (hordered.sublist (List.sublist_append_left _ _))
    have hboth := hcovered.merge [] (Token.covered_singleton t) hordered
    have heof : ∀ u ∈ ts ++ ([] ++ [t]), u.kind.isEof = false := by
      rw [List.nil_append, List.forall_mem_append, List.forall_mem_singleton, ht]
      exact ⟨hwritten.isEof, rfl⟩
    obtain ⟨left, text, right, hslice, htext, -⟩ := hboth.slice htiling heof
    exact .inl ⟨left, text, right, hslice, htext⟩

theorem ParseError.PointsInto.found_eq {err : ParseError} (h : err.PointsInto tokens)
    (hexpected : err.expected ≠ []) :
    ∃ t ∈ tokens, t.span = err.span ∧ err.found = some t.kind.describe := by
  cases h with
  | target => exact absurd rfl hexpected
  | @token complaint t ht hfound =>
    cases complaint with
    | wanted what found =>
      obtain rfl := hfound what found rfl
      exact ⟨t, ht, rfl, rfl⟩
    | _ => exact absurd rfl hexpected

end Tokens

/-! ## Errors of a script -/

/-- An error of a script points into the source, at what caused it. -/
structure ScriptError.PointsInto (table : Table) (source : String) (err : ScriptError) : Prop where
  /-- the span is that of a piece of the source, so that no character is cut apart -/
  slice : ∃ before text after, Lexer.Slice source.toList err.span before text after
  within : err.span.start ≤ err.span.stop ∧ err.span.stop ≤ source.utf8ByteSize
  /-- only at the end of the input the piece is empty -/
  nonempty : err.span.start < err.span.stop ∨
    (∃ e, err = .parse e) ∧ err.span = ⟨source.utf8ByteSize, source.utf8ByteSize⟩
  /-- a token that stands where something else was wanted is the one at the span -/
  found : ∀ e, err = .parse e → e.expected ≠ [] →
    ∃ tokens, tokenize table source = .ok tokens ∧
      ∃ t ∈ tokens, t.span = e.span ∧ e.found = some t.kind.describe
  /-- an error of the run is that of an expression of the program at the span -/
  blamed : ∀ e, err = .runtime e →
    ∃ tokens p, tokenize table source = .ok tokens ∧ Program.parse tokens = .ok p ∧
      e.PointsAt p.nodes

namespace Script

variable {table : Table} {source : String}

/-- An error arises in the first stage that fails. -/
theorem run_eq_failed {steps : Nat} {err : ScriptError}
    (h : (run steps table source).ending = .failed err) :
    (∃ e, err = .lex e ∧ tokenize table source = .error e) ∨
      ∃ tokens, tokenize table source = .ok tokens ∧
        ((∃ e, err = .parse e ∧ Program.parse tokens = .error e) ∨
          ∃ p e m, err = .runtime e ∧ Program.parse tokens = .ok p ∧
            Machine.start.run steps p = .failed e m) := by
  unfold run at h
  split at h
  · next e htokens =>
    cases h
    exact .inl ⟨e, rfl, htokens⟩
  · next tokens htokens =>
    refine .inr ⟨tokens, htokens, ?_⟩
    split at h
    · next e hparse =>
      cases h
      exact .inl ⟨e, rfl, hparse⟩
    · next p hparse =>
      cases hrun : Machine.start.run steps p with
      | done v m => rw [hrun] at h; cases h
      | cut m => rw [hrun] at h; cases h
      | failed e m =>
        rw [hrun] at h
        cases h
        exact .inr ⟨p, e, m, rfl, hparse, hrun⟩

end Script

/-- The span of an error is settled by the text at it, or by the end of the input. -/
theorem ScriptError.PointsInto.of_span {table : Table} {source : String} {err : ScriptError}
    (h : Lexer.Occupied source.toList err.span ∨
      (∃ e, err = .parse e) ∧ err.span = ⟨source.utf8ByteSize, source.utf8ByteSize⟩)
    (found : ∀ e, err = .parse e → e.expected ≠ [] →
      ∃ tokens, tokenize table source = .ok tokens ∧
        ∃ t ∈ tokens, t.span = e.span ∧ e.found = some t.kind.describe)
    (blamed : ∀ e, err = .runtime e →
      ∃ tokens p, tokenize table source = .ok tokens ∧ Program.parse tokens = .ok p ∧
        e.PointsAt p.nodes) : err.PointsInto table source := by
  have hslice : ∃ before text after, Lexer.Slice source.toList err.span before text after := by
    obtain ⟨before, text, after, hslice, -⟩ | ⟨-, hspan⟩ := h
    · exact ⟨before, text, after, hslice⟩
    · refine ⟨source.toList, [], [], by simp, ?_, ?_⟩ <;> simp [hspan, Text.size_toList]
  obtain ⟨before, text, after, hpiece⟩ := id hslice
  have hwithin := hpiece.le_size
  rw [Text.size_toList] at hwithin
  exact ⟨hslice, hwithin, h.imp_left fun hoccupied => hoccupied.start_lt, found, blamed⟩

/-- Every error of a script points into its source, at what caused it. -/
theorem Script.errors_point_at_cause (steps : Nat) (table : Table) (source : String)
    (err : ScriptError) (h : (Script.run steps table source).ending = .failed err) :
    err.PointsInto table source := by
  obtain ⟨e, rfl, hlex⟩ | ⟨tokens, htokens, hrest⟩ := run_eq_failed h
  · have hfrom : Lexer.tokensFrom table (Text.size []) source.toList = .error e := hlex
    exact .of_span (.inl (Lexer.occupied_of_tokensFrom source.toList hfrom)) (by rintro _ ⟨⟩)
      (by rintro _ ⟨⟩)
  have htiling := tokenize_eq_ok_iff.mp htokens
  obtain ⟨body, hbody, -⟩ := htiling.eof_last
  obtain ⟨e, rfl, hparse⟩ | ⟨p, e, m, rfl, hparse, hrun⟩ := hrest
  · have hpoints := Program.pointsInto_of_parse hbody hparse
    refine .of_span ((hpoints.occupied_or_eof htiling).imp_right fun hspan => ⟨⟨e, rfl⟩, hspan⟩)
      ?_ (by rintro _ ⟨⟩)
    intro e' he hexpected
    cases he
    exact ⟨tokens, htokens, hpoints.found_eq hexpected⟩
  · have hblames := Machine.start.run_blames steps p
    rw [hrun] at hblames
    have hpoints : e.PointsAt p.nodes := hblames
    obtain ⟨node, hnode, hspan⟩ := hpoints.exists_span_eq
    have hoccupied := (Program.stands_of_parse hbody hparse node hnode).occupied htiling
    rw [hspan] at hoccupied
    refine .of_span (.inl hoccupied) (by rintro _ ⟨⟩) ?_
    intro e' he
    cases he
    exact ⟨tokens, p, htokens, hparse, hpoints⟩

set_option maxRecDepth 4000 in
theorem Script.errors_point_at_cause_subtraction :
    (ScriptError.runtime (.typeError (.binary .sub .bool .text) ⟨0, 11⟩)).PointsInto .english
      "true - \"é\"" := by
  have htokens : tokenize .english "true - \"é\"" = .ok
      [⟨.keyword .trueWord, ⟨0, 4⟩⟩, ⟨.symbol .minus, ⟨5, 6⟩⟩, ⟨.text "é", ⟨7, 11⟩⟩,
        ⟨.eof, ⟨11, 11⟩⟩] := by
    cbv
  have hparse : Program.parse
      [⟨.keyword .trueWord, ⟨0, 4⟩⟩, ⟨.symbol .minus, ⟨5, 6⟩⟩, ⟨.text "é", ⟨7, 11⟩⟩,
        ⟨.eof, ⟨11, 11⟩⟩] =
      .ok ⟨[.expr (.binary .sub (.bool true ⟨0, 4⟩) (.text "é" ⟨7, 11⟩) ⟨0, 11⟩)]⟩ := by
    cbv
  refine Script.errors_point_at_cause 3 .english "true - \"é\"" _ ?_
  rw [Script.run, htokens]
  simp only [hparse]
  rfl

end Respell
