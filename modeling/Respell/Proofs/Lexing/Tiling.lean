-- SUMMARY: The tokens of a source tile it, and every tiling is the one that is found.
import Respell.Proofs.Lexing.Lexemes

/-!
# Tokens tile the source

`Tiling` splits a source into lexemes, each complete and with trivia before it, and the trivia at
the end. A source has tokens exactly if it has a tiling, which then lists them
(`tokenize_eq_ok_iff`). `Tiled` says what that means for the spans, token by token and gap by gap.
-/

namespace Respell

/-- The tokens follow one another. -/
structure Token.Ordered (tokens : List Token) : Prop where
  start_le : ∀ t ∈ tokens, t.span.start ≤ t.span.stop
  pairwise : tokens.Pairwise fun t u => t.span.stop ≤ u.span.start

namespace Lexer

open Text (size)

/-- The source, which starts at the given offset, split into lexemes and trivia. -/
inductive Tiling (table : Table) : Nat → List Char → List Token → Prop where
  | eof {offset : Nat} {gap : List Char} : Trivia [] gap →
      Tiling table offset gap [⟨.eof, ⟨offset + size gap, offset + size gap⟩⟩]
  | token {offset : Nat} {gap text rest : List Char} {kind : Kind} {tokens : List Token} :
      Trivia (text ++ rest) gap → Spells table kind text → Complete kind text rest →
      Tiling table (offset + size gap + size text) rest tokens →
      Tiling table offset (gap ++ (text ++ rest))
        (⟨kind, ⟨offset + size gap, offset + size gap + size text⟩⟩ :: tokens)

/-! ## What the lexer finds -/

/-- The tokens of a text that starts at the given offset, with or without trivia. -/
def tokensFrom (table : Table) (offset : Nat) (cs : List Char) : Except LexError (List Token) :=
  scan table (skipTrivia offset cs).1 (skipTrivia offset cs).2

theorem scan_of_token {table : Table} {offset : Nat} {c : Char} {cs text rest : List Char}
    {kind : Kind} (h : readLexeme table c cs = .token kind text rest) :
    scan table offset (c :: cs) =
      (tokensFrom table (offset + size text) rest).map
        (⟨kind, ⟨offset, offset + size text⟩⟩ :: ·) := by
  rw [scan]
  split
  · next h' => rw [h] at h'; cases h'
  · next h' => rw [h] at h'; cases h'
  · next h' =>
    rw [h] at h'
    cases h'
    dsimp only [tokensFrom]
    split <;> next hs => rw [hs]; rfl

theorem scan_of_unknown {table : Table} {offset : Nat} {c : Char} {cs : List Char}
    (h : readLexeme table c cs = .unknown) :
    scan table offset (c :: cs) = .error (.invalidCharacter c ⟨offset, offset + c.utf8Size⟩) := by
  rw [scan]
  split
  · rfl
  · next h' => rw [h] at h'; cases h'
  · next h' => rw [h] at h'; cases h'

theorem scan_of_unterminated {table : Table} {offset : Nat} {c : Char} {cs : List Char}
    (h : readLexeme table c cs = .unterminated) :
    scan table offset (c :: cs) = .error (.unterminatedString ⟨offset, offset + 1⟩) := by
  rw [scan]
  split
  · next h' => rw [h] at h'; cases h'
  · rfl
  · next h' => rw [h] at h'; cases h'

theorem exists_token_of_scan {table : Table} {offset : Nat} {c : Char} {cs : List Char}
    {tokens : List Token} (h : scan table offset (c :: cs) = .ok tokens) :
    ∃ kind text rest, readLexeme table c cs = .token kind text rest := by
  rw [scan] at h
  split at h
  · cases h
  · cases h
  · next hlexeme => exact ⟨_, _, _, hlexeme⟩

/-- What is found is a tiling. -/
theorem tiling_of_tokensFrom {table : Table} (cs : List Char) {offset : Nat} {tokens : List Token}
    (h : tokensFrom table offset cs = .ok tokens) : Tiling table offset cs tokens := by
  obtain ⟨gap, rest, hcs, htrivia, hstop, hskip⟩ := exists_skipTrivia cs offset
  rw [tokensFrom, hskip] at h
  cases rest with
  | nil =>
    rw [scan] at h
    cases h
    rw [hcs, List.append_nil]
    exact .eof htrivia
  | cons c after =>
    obtain ⟨kind, text, rest, hlexeme⟩ := exists_token_of_scan h
    obtain ⟨hspells, hcomplete⟩ := readLexeme_spells hstop hlexeme
    have hlength : rest.length < cs.length := by
      have := length_rest_lt hlexeme
      simp only [hcs, List.length_append]
      omega
    rw [scan_of_token hlexeme] at h
    cases htail : tokensFrom table (offset + size gap + size text) rest with
    | error e =>
      rw [htail] at h
      cases h
    | ok tail =>
      rw [htail] at h
      cases h
      have hmeet := tiling_of_tokensFrom rest htail
      rw [← readLexeme_append hlexeme] at htrivia hcs
      rw [hcs]
      exact .token htrivia hspells hcomplete hmeet
termination_by cs.length

/-- A complete lexeme is the first token, and what follows it is read as it would be alone. -/
theorem Spells.tokensFrom_append {table : Table} {kind : Kind} {text rest : List Char}
    (h : Spells table kind text) (hcomplete : Complete kind text rest) (offset : Nat) :
    tokensFrom table offset (text ++ rest) =
      (tokensFrom table (offset + size text) rest).map
        (⟨kind, ⟨offset, offset + size text⟩⟩ :: ·) := by
  rw [tokensFrom, skipTrivia_of_startsTrivia (h.startsTrivia hcomplete)]
  obtain ⟨c, cs, rfl, -⟩ := h.exists_cons
  exact scan_of_token (readLexeme_of_spells h hcomplete (List.cons_append ..))

/-- Every tiling is found. -/
theorem Tiling.tokensFrom_eq {table : Table} {offset : Nat} {cs : List Char} {tokens : List Token}
    (h : Tiling table offset cs tokens) : tokensFrom table offset cs = .ok tokens := by
  induction h with
  | @eof offset gap htrivia =>
    have hskip := htrivia.skip rfl offset
    rw [List.append_nil] at hskip
    rw [tokensFrom, hskip, scan]
  | @token offset gap text rest kind tokens htrivia hspells hcomplete _ ih =>
    have hstop := hspells.startsTrivia hcomplete
    have hread := hspells.tokensFrom_append hcomplete (offset + size gap)
    rw [tokensFrom, skipTrivia_of_startsTrivia hstop, ih] at hread
    rw [tokensFrom, htrivia.skip hstop, hread]
    rfl

/-! ## Tokens and gaps -/

/-- The text that stands at the span, between what comes before it and after it. -/
structure Slice (source : List Char) (span : Span) (before text after : List Char) : Prop where
  source_eq : source = before ++ (text ++ after)
  start_eq : span.start = size before
  stop_eq : span.stop = size before + size text

/-- The spans before, between and, up to the end of the input, after the tokens. -/
def gaps (start : Nat) : List Token → List Span
  | [] => []
  | t :: ts => ⟨start, t.span.start⟩ :: gaps t.span.stop ts

namespace Tiling

variable {table : Table} {offset : Nat} {cs : List Char} {tokens : List Token}

theorem eof_last (h : Tiling table offset cs tokens) :
    ∃ body, tokens = body ++ [⟨.eof, ⟨offset + size cs, offset + size cs⟩⟩] ∧
      ∀ t ∈ body, t.kind ≠ .eof := by
  induction h with
  | eof => exact ⟨[], rfl, nofun⟩
  | @token offset gap text rest kind _ _ hspells _ _ ih =>
    obtain ⟨body, rfl, hbody⟩ := ih
    refine ⟨⟨kind, ⟨offset + size gap, offset + size gap + size text⟩⟩ :: body, ?_,
      List.forall_mem_cons.mpr ⟨hspells.ne_eof, hbody⟩⟩
    simp only [Text.size_append, Nat.add_assoc, List.cons_append]

theorem start_le_stop (h : Tiling table offset cs tokens) :
    ∀ t ∈ tokens, t.span.start ≤ t.span.stop := by
  induction h with
  | eof => simp
  | token _ _ _ _ ih => exact List.forall_mem_cons.mpr ⟨Nat.le_add_right _ _, ih⟩

theorem start_le (h : Tiling table offset cs tokens) : ∀ t ∈ tokens, offset ≤ t.span.start := by
  induction h with
  | eof => simp
  | token _ _ _ _ ih =>
    refine List.forall_mem_cons.mpr ⟨Nat.le_add_right _ _, fun t ht => ?_⟩
    have := ih t ht
    omega

theorem ordered (h : Tiling table offset cs tokens) :
    tokens.Pairwise fun t u => t.span.stop ≤ u.span.start := by
  induction h with
  | eof => simp
  | token _ _ _ htail ih => exact List.pairwise_cons.mpr ⟨htail.start_le, ih⟩

theorem slices (h : Tiling table offset cs tokens) (before : List Char)
    (hb : size before = offset) : ∀ t ∈ tokens, t.kind ≠ .eof → ∃ before' text after,
      Slice (before ++ cs) t.span before' text after ∧ Spells table t.kind text ∧
        Complete t.kind text after := by
  induction h generalizing before with
  | eof => simp
  | @token offset gap text rest kind tokens _ hspells hcomplete _ ih =>
    refine List.forall_mem_cons.mpr ⟨fun _ => ?_, ?_⟩
    · exact ⟨before ++ gap, text, rest, ⟨by simp, by simp [hb], by simp [hb]⟩, hspells, hcomplete⟩
    · have := ih (before ++ gap ++ text) (by simp [hb, Nat.add_assoc])
      simpa only [List.append_assoc] using this

theorem gaps_trivia (h : Tiling table offset cs tokens) (before : List Char)
    (hb : size before = offset) : ∀ span ∈ gaps offset tokens, ∃ before' gap after,
      Slice (before ++ cs) span before' gap after ∧ Trivia after gap := by
  induction h generalizing before with
  | @eof offset gap htrivia =>
    simp only [gaps, List.forall_mem_cons, List.not_mem_nil, false_implies, implies_true, and_true]
    exact ⟨before, gap, [], ⟨by simp, hb.symm, by simp [hb]⟩, htrivia⟩
  | @token offset gap text rest kind tokens htrivia _ _ _ ih =>
    refine List.forall_mem_cons.mpr ⟨?_, ?_⟩
    · exact ⟨before, gap, text ++ rest, ⟨rfl, hb.symm, by simp [hb]⟩, htrivia⟩
    · have := ih (before ++ gap ++ text) (by simp [hb, Nat.add_assoc])
      simpa only [List.append_assoc] using this

end Tiling

end Lexer

namespace Text

theorem size_toList (s : String) : size s.toList = s.utf8ByteSize := by
  have hlist : ∀ cs : List Char, size cs = (String.ofList cs).utf8ByteSize := by
    intro cs
    induction cs with
    | nil => rfl
    | cons c cs ih =>
      rw [size_cons, ih, String.ofList_cons, String.utf8ByteSize_append,
        String.utf8ByteSize_singleton]
  rw [hlist, String.ofList_toList]

end Text

/-! ## The tokens of a source -/

theorem tokenize_eq (table : Table) (source : String) :
    tokenize table source = Lexer.tokensFrom table 0 source.toList := rfl

/-- A source has the tokens of its tiling. -/
theorem tokenize_eq_ok_iff {table : Table} {source : String} {tokens : List Token} :
    tokenize table source = .ok tokens ↔ Lexer.Tiling table 0 source.toList tokens :=
  ⟨Lexer.tiling_of_tokensFrom source.toList, Lexer.Tiling.tokensFrom_eq⟩

/-- Nothing of the source is lost between the tokens, and no token could be longer. -/
structure Tiled (table : Table) (source : String) (tokens : List Token) : Prop where
  /-- the end of the input is the last token, and no other -/
  eof_last : ∃ body, tokens = body ++ [⟨.eof, ⟨source.utf8ByteSize, source.utf8ByteSize⟩⟩] ∧
    ∀ t ∈ body, t.kind ≠ .eof
  /-- all other spans hold something -/
  nonempty : ∀ t ∈ tokens, t.kind ≠ .eof → t.span.start < t.span.stop
  /-- no span starts before the ones to its left end -/
  ordered : tokens.Pairwise fun t u => t.span.stop ≤ u.span.start
  /-- a token is what its text spells, and its text is as long as it can be -/
  slices : ∀ t ∈ tokens, t.kind ≠ .eof → ∃ before text after,
    Lexer.Slice source.toList t.span before text after ∧ Lexer.Spells table t.kind text ∧
      Lexer.Complete t.kind text after
  /-- all the rest is trivia -/
  gaps : ∀ span ∈ Lexer.gaps 0 tokens, ∃ before gap after,
    Lexer.Slice source.toList span before gap after ∧ Lexer.Trivia after gap

/-- The tokens that are found tile the source. -/
theorem tokenize_tiles (table : Table) (source : String) (tokens : List Token)
    (h : tokenize table source = .ok tokens) : Tiled table source tokens := by
  have htiling := tokenize_eq_ok_iff.mp h
  have hslices := htiling.slices [] rfl
  refine ⟨?_, fun t ht hk => ?_, htiling.ordered, hslices, htiling.gaps_trivia [] rfl⟩
  · simpa [Text.size_toList] using htiling.eof_last
  · obtain ⟨before, text, after, hslice, hspells, -⟩ := hslices t ht hk
    obtain ⟨c, cs, rfl, -⟩ := hspells.exists_cons
    have hpos := c.utf8Size_pos
    rw [hslice.start_eq, hslice.stop_eq, Text.size_cons]
    omega

theorem tokenize_tiles_comment :
    Tiled .english "é==\"=\" // x"
      [⟨.word "é", ⟨0, 2⟩⟩, ⟨.symbol .equal, ⟨2, 4⟩⟩, ⟨.text "=", ⟨4, 7⟩⟩, ⟨.eof, ⟨12, 12⟩⟩] := by
  refine tokenize_tiles .english "é==\"=\" // x" _ ?_
  have hword : Lexer.readLexeme .english 'é' "==\"=\" // x".toList =
      .token (.word "é") ['é'] "==\"=\" // x".toList := rfl
  have hequal : Lexer.readLexeme .english '=' "=\"=\" // x".toList =
      .token (.symbol .equal) ['=', '='] "\"=\" // x".toList := rfl
  have htext : Lexer.readLexeme .english '"' "=\" // x".toList =
      .token (.text "=") ['"', '=', '"'] " // x".toList := rfl
  change Lexer.scan .english 0 ('é' :: "==\"=\" // x".toList) = _
  rw [Lexer.scan_of_token hword]
  change (Lexer.scan .english 2 ('=' :: "=\"=\" // x".toList)).map _ = _
  rw [Lexer.scan_of_token hequal]
  change ((Lexer.scan .english 4 ('"' :: "=\" // x".toList)).map _).map _ = _
  rw [Lexer.scan_of_token htext]
  change ((((Lexer.scan .english 12 []).map _).map _).map _) = _
  rw [Lexer.scan]
  rfl

end Respell
