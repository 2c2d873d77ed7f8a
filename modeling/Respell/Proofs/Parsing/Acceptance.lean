-- SUMMARY: The parser accepts exactly the grammar, up to the cap on nesting.
import Respell.Proofs.Parsing.Completeness
import Respell.Proofs.Parsing.Greedy
import Respell.Proofs.Parsing.Soundness

/-!
# The language of the parser

Soundness and completeness together, for whole lists of tokens and in terms of the messages that a
reader of an error sees.
-/

namespace Respell

/-! ## Messages -/

/-- The message says that something is nested too deeply. -/
def ParseError.BlamesDepth (e : ParseError) : Prop :=
  "nested too deeply".toList <:+ e.message.toList

theorem not_isSuffix_of_getLast? {cs : List Char} {c : Char} (h : cs.getLast? = some c)
    (hc : c ≠ 'y') : ¬ "nested too deeply".toList <:+ cs := by
  rintro ⟨ds, rfl⟩
  rw [List.getLast?_append] at h
  exact hc (Option.some.inj h).symm

theorem getLast?_toList_append (s : String) {t : String} {c : Char}
    (h : t.toList.getLast? = some c) : (s ++ t).toList.getLast? = some c := by
  rw [String.toList_append, List.getLast?_append, h]
  rfl

/-- The names of tokens end with a word that stays the same, or with a quote. -/
theorem Kind.getLast?_describe (k : Kind) :
    ∃ c, k.describe.toList.getLast? = some c ∧ c ≠ 'y' := by
  cases k with
  | keyword r => exact ⟨'d', getLast?_toList_append _ (by decide), by decide⟩
  | word x =>
    rw [describe]
    split
    · exact ⟨'r', by decide, by decide⟩
    · exact ⟨'`', getLast?_toList_append _ (by decide), by decide⟩
  | number x => exact ⟨'`', getLast?_toList_append _ (by decide), by decide⟩
  | text s => exact ⟨'l', by rw [describe]; decide, by decide⟩
  | symbol s => exact ⟨'`', getLast?_toList_append _ (by decide), by decide⟩
  | eof => exact ⟨'t', by decide, by decide⟩

/-- Only complaints about depth say so. -/
theorem ParseError.blamesDepth_iff {e : ParseError} : e.BlamesDepth ↔ e.TooDeep := by
  obtain ⟨complaint, span⟩ := e
  constructor
  · intro h
    cases complaint with
    | wanted what found =>
      obtain ⟨c, hc, hne⟩ := found.getLast?_describe
      refine absurd h (not_isSuffix_of_getLast? ?_ hne)
      exact getLast?_toList_append _ (getLast?_toList_append _ hc)
    | wantedName found =>
      obtain ⟨c, hc, hne⟩ := found.getLast?_describe
      refine absurd h (not_isSuffix_of_getLast? ?_ hne)
      exact getLast?_toList_append _ hc
    | notAssignable =>
      have hlast : "invalid assignment target".toList.getLast? = some 't' := by decide
      exact absurd h (not_isSuffix_of_getLast? hlast (by decide))
    | tooDeep what => exact ⟨what, rfl⟩
  · rintro ⟨what, h⟩
    cases h
    have hmessage : (⟨.tooDeep what, span⟩ : ParseError).message =
      what.describe ++ " nested too deeply" := rfl
    have hspace : [' '] ++ "nested too deeply".toList = " nested too deeply".toList := by decide
    refine ⟨what.describe.toList ++ [' '], ?_⟩
    rw [hmessage, String.toList_append, List.append_assoc, hspace]

/-! ## Programs -/

namespace Program

open Grammar

variable {tokens : List Token} {ks : List Kind}

theorem parse_eq_ok_iff {p : Program} :
    parse tokens = .ok p ↔ ∃ after, Parser.program (.ofTokens tokens) = .ok p after := by
  unfold parse
  cases Parser.program (.ofTokens tokens) <;> simp

theorem parse_eq_error_iff {e : ParseError} :
    parse tokens = .error e ↔ ∃ place, Parser.program (.ofTokens tokens) = .error e place := by
  unfold parse
  cases Parser.program (.ofTokens tokens) <;> simp

/-- A program that is parsed has a greedy derivation within the cap. -/
theorem yields_of_parse {p : Program} (h : parse tokens = .ok p) :
    Yields Greedy maxNesting (.statements p.statements) (Cursor.ofTokens tokens).ahead .eof := by
  obtain ⟨after, hok⟩ := parse_eq_ok_iff.mp h
  have hsound := Parser.program_sound _ (Cursor.closed_ofTokens tokens)
  rw [hok] at hsound
  obtain ⟨us, hr, hd, hafter⟩ := hsound
  have hahead := hr.2
  rw [hafter, List.append_nil] at hahead
  rwa [hahead]

theorem accepts_of_parse {p : Program} (hks : tokens.map Token.kind = ks ++ [.eof])
    (heof : Kind.eof ∉ ks) (h : parse tokens = .ok p) : Accepts p ks := by
  have hd := yields_of_parse h
  rw [Cursor.ahead_ofTokens hks heof] at hd
  exact hd.mono (fun _ _ => trivial) le_top

/-- A greedy derivation is parsed as its tree, unless it takes more room than there is. -/
theorem parse_of_yields {need : ℕ∞} {p : Program} (hks : tokens.map Token.kind = ks ++ [.eof])
    (heof : Kind.eof ∉ ks) (h : Yields Greedy need (.statements p.statements) ks .eof) :
    (∃ q, parse tokens = .ok q ∧ q.erase = p.erase) ∨
      ∃ e, parse tokens = .error e ∧ e.TooDeep ∧ (maxNesting : ℕ∞) < need := by
  have hahead : (Cursor.ofTokens tokens).ahead = ks ++ [] := by
    rw [Cursor.ahead_ofTokens hks heof, List.append_nil]
  have hcomplete := Parser.program_complete h (Cursor.closed_ofTokens tokens) hahead
  cases hreply : Parser.program (.ofTokens tokens) with
  | ok q after =>
    rw [hreply] at hcomplete
    exact .inl ⟨q, parse_eq_ok_iff.mpr ⟨after, hreply⟩, hcomplete.1⟩
  | error e place =>
    rw [hreply] at hcomplete
    exact .inr ⟨e, parse_eq_error_iff.mpr ⟨place, hreply⟩, hcomplete⟩

theorem length_of_tooDeep {e : ParseError} (hks : tokens.map Token.kind = ks ++ [.eof])
    (heof : Kind.eof ∉ ks) (h : parse tokens = .error e) (hdeep : e.TooDeep) :
    254 < ks.length := by
  obtain ⟨place, herror⟩ := parse_eq_error_iff.mp h
  have hsound := Parser.program_sound _ (Cursor.closed_ofTokens tokens)
  rw [herror] at hsound
  have hlen : maxNesting < (Cursor.ofTokens tokens).ahead.length + 2 := hsound hdeep
  rw [Cursor.ahead_ofTokens hks heof, maxNesting] at hlen
  omega

/-- The parser accepts exactly the grammar. A program that it answers is derived from the tokens
    before the end of the input; tokens that are a program are parsed, or found to be nested too
    deeply; and no more than 254 tokens never are. -/
theorem parse_accepts_grammar (tokens : List Token) (ks : List Kind)
    (hks : tokens.map Token.kind = ks ++ [.eof]) (heof : Kind.eof ∉ ks) :
    (∀ p, parse tokens = .ok p → Accepts p ks) ∧
      ((∃ p, Accepts p ks) →
        (∃ p, parse tokens = .ok p) ∨ ∃ e, parse tokens = .error e ∧ e.BlamesDepth) ∧
      (ks.length ≤ 254 → ∀ e, parse tokens = .error e → ¬ e.BlamesDepth) := by
  refine ⟨fun p h => accepts_of_parse hks heof h, ?_, ?_⟩
  · rintro ⟨p, hp⟩
    obtain ⟨q, hq⟩ := hp.greedy
    rcases parse_of_yields hks heof hq with ⟨r, hr, -⟩ | ⟨e, he, hdeep, -⟩
    · exact .inl ⟨r, hr⟩
    · exact .inr ⟨e, he, ParseError.blamesDepth_iff.mpr hdeep⟩
  · intro hlen e he hblames
    have := length_of_tooDeep hks heof he (ParseError.blamesDepth_iff.mp hblames)
    omega

/-- A definition before a sign, which the plain grammar can end in two places. -/
theorem parse_accepts_definition_before_sign :
    let ks : List Kind := [.keyword .letWord, .word "a", .symbol .assign, .word "b",
      .symbol .minus, .word "c", .symbol .semicolon]
    let tokens : List Token := (ks ++ [Kind.eof]).map (⟨·, ⟨0, 0⟩⟩)
    tokens.map Token.kind = ks ++ [.eof] ∧ Kind.eof ∉ ks ∧
      (∀ p, parse tokens = .ok p → Accepts p ks) ∧
      ((∃ p, Accepts p ks) →
        (∃ p, parse tokens = .ok p) ∨ ∃ e, parse tokens = .error e ∧ e.BlamesDepth) ∧
      (ks.length ≤ 254 → ∀ e, parse tokens = .error e → ¬ e.BlamesDepth) :=
  ⟨rfl, by simp, parse_accepts_grammar _ _ rfl (by simp)⟩

end Program

end Respell
