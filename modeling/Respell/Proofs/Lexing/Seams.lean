-- SUMMARY: What the lexer makes of two texts that are put together, and of lines one after another.
import Respell.Proofs.Lexing.Slicing

/-!
# Texts put together

`Front` says which tokens stand at the start of a text, with the rest of the text kept in view: the
last of them has to be complete before that rest, and that is all they need of it. The lexer goes on
with the rest as if it stood alone, only further to the right (`Front.tokensFrom_append`). The end
of a line completes every lexeme and ends every comment, so lines do not get in each other's way
(`tokenize_append_line`).
-/

namespace Respell

theorem Symbol.length_chars_le (s : Symbol) : s.chars.length ≤ 2 := by
  cases s <;> decide

namespace Lexer

open Text (Stops size)

/-! ## Comments that have ended -/

/-- All of it is skipped, and after it whatever trivia follows. -/
theorem Filler.skip {gap : List Char} (h : Filler gap) (offset : Nat) (cs : List Char) :
    skipTrivia offset (gap ++ cs) = skipTrivia (offset + size gap) cs := by
  induction h generalizing offset with
  | nil => rfl
  | blank hc _ ih =>
    rw [List.cons_append, skipTrivia, if_pos hc, ih, Text.size_cons, Nat.add_assoc]
  | @comment body gap hbody _ ih =>
    have hslash : Text.isBlank '/' = false := by decide
    have hsize : offset + '/'.utf8Size + '/'.utf8Size + size body + '\n'.utf8Size + size gap =
        offset + size ('/' :: '/' :: (body ++ '\n' :: gap)) := by
      simp only [Text.size_cons, Text.size_append]
      omega
    simp only [List.cons_append, List.append_assoc]
    rw [skipTrivia, if_neg (by simp [hslash]), if_pos (by simp), skipComment, if_neg (by decide),
      skipComment_append hbody, skipComment, if_pos rfl, ih, hsize]

theorem Filler.tokensFrom_append {table : Table} {gap : List Char} (h : Filler gap) (offset : Nat)
    (cs : List Char) : tokensFrom table offset (gap ++ cs) =
      tokensFrom table (offset + size gap) cs := by
  rw [tokensFrom, tokensFrom, h.skip]

theorem Filler.of_newline {gap : List Char} (h : Filler ('\n' :: gap)) : Filler gap := by
  cases h with
  | blank _ h => exact h

/-- The end of a line ends every comment. -/
theorem Trivia.filler_newline {gap : List Char} (h : Trivia [] gap) :
    Filler (gap ++ ['\n']) := by
  induction h with
  | nil => exact .blank (by decide) .nil
  | blank hc _ ih => exact .blank hc ih
  | @comment body gap hbody hend _ ih =>
    rw [List.cons_append, List.cons_append, List.append_assoc]
    cases gap with
    | nil => exact .comment hbody .nil
    | cons c gap =>
      obtain hend | ⟨rest, hend⟩ := hend
      · cases hend
      · obtain ⟨rfl, -⟩ := List.cons.inj hend
        exact .comment hbody ih.of_newline

/-- Where no trivia follows, every comment has come to the end of its line. -/
theorem Trivia.filler {after gap : List Char} (h : Trivia after gap) (hne : after ≠ [])
    (hafter : startsTrivia after = false) : Filler gap := by
  induction h with
  | nil => exact .nil
  | blank hblank _ ih => exact .blank hblank ih
  | @comment body gap hbody hend _ ih =>
    cases gap with
    | nil =>
      obtain rfl | ⟨rest, rfl⟩ := hend
      · exact absurd rfl hne
      · cases hafter
    | cons d gap =>
      obtain hend | ⟨rest, hend⟩ := hend
      · cases hend
      · obtain ⟨rfl, -⟩ := List.cons.inj hend
        exact .comment hbody ih.of_newline

/-! ## What follows a lexeme -/

theorem stops_append {p : Char → Bool} {rest : List Char} (h : Stops p rest) (hne : rest ≠ [])
    (more : List Char) : Stops p (rest ++ more) := by
  cases rest with
  | nil => exact absurd rfl hne
  | cons c rest => exact Text.stops_cons.mpr (Text.stops_cons.mp h)

/-- Of what follows a lexeme only the first character counts. -/
theorem Complete.append {kind : Kind} {text rest : List Char} (h : Complete kind text rest)
    (hne : rest ≠ []) (more : List Char) : Complete kind text (rest ++ more) := by
  cases kind with
  | keyword role => exact stops_append h hne more
  | word name => exact stops_append h hne more
  | number value => exact ⟨stops_append h.1 hne more, fun hdot => stops_append (h.2 hdot) hne more⟩
  | text contents => trivial
  | eof => trivial
  | symbol s =>
    refine ⟨fun t ht => h.1 t ?_, fun hs => stops_append (h.2 hs) hne more⟩
    -- A symbol is no longer than two characters, and these stand before `more`.
    have hlength : t.chars.length ≤ (s.chars ++ rest).length := by
      have hs := List.length_pos_iff.mpr s.chars_ne_nil
      have hrest := List.length_pos_iff.mpr hne
      have ht := t.length_chars_le
      rw [List.length_append]
      omega
    rw [← List.append_assoc] at ht
    exact List.prefix_of_prefix_length_le ht (List.prefix_append _ _) hlength

/-! ## Tokens at the front -/

/-- The tokens at the start of a text that goes on with `after`, up to the end of the last one. -/
inductive Front (table : Table) (after : List Char) : Nat → List Char → List Token → Prop where
  | nil {offset : Nat} : Front table after offset [] []
  | token {offset : Nat} {gap text rest : List Char} {kind : Kind} {tokens : List Token} :
      Filler gap → Spells table kind text → Complete kind text (rest ++ after) →
      Front table after (offset + size gap + size text) rest tokens →
      Front table after offset (gap ++ (text ++ rest))
        (⟨kind, ⟨offset + size gap, offset + size gap + size text⟩⟩ :: tokens)

namespace Front

variable {table : Table} {after after' : List Char} {offset : Nat} {cs : List Char}
  {tokens : List Token}

/-- The lexer goes on with the rest as if it stood alone. -/
theorem tokensFrom_append (h : Front table after offset cs tokens) :
    tokensFrom table offset (cs ++ after) =
      (tokensFrom table (offset + size cs) after).map (tokens ++ ·) := by
  induction h with
  | nil =>
    rw [List.nil_append, Text.size_nil, Nat.add_zero]
    cases tokensFrom table _ after <;> rfl
  | @token offset gap text rest kind tokens hgap hspells hcomplete _ ih =>
    rw [List.append_assoc, List.append_assoc, hgap.tokensFrom_append,
      hspells.tokensFrom_append hcomplete, ih]
    simp only [Text.size_append, Nat.add_assoc]
    cases tokensFrom table _ after <;> rfl

theorem tokensFrom_filler {gap : List Char} (h : Front table gap offset cs tokens)
    (hgap : Filler gap) : tokensFrom table offset (cs ++ gap) =
      .ok (tokens ++ [⟨.eof, ⟨offset + size (cs ++ gap), offset + size (cs ++ gap)⟩⟩]) := by
  have htrivia : Trivia [] gap := by simpa using hgap.trivia .nil
  rw [h.tokensFrom_append, (Tiling.eof htrivia).tokensFrom_eq, Text.size_append, Nat.add_assoc]
  rfl

/-- Something else may follow if only the last token is complete before that. -/
theorem follow (h : Front table after offset cs tokens)
    (hlast : ∀ before text t, cs = before ++ text → tokens.getLast? = some t →
      t.span = ⟨offset + size before, offset + size cs⟩ → Spells table t.kind text →
      Complete t.kind text after → Complete t.kind text after') :
    Front table after' offset cs tokens := by
  induction h with
  | nil => exact .nil
  | @token offset gap text rest kind tokens hgap hspells hcomplete hrest ih =>
    refine .token hgap hspells ?_ (ih fun before text' t hcs ht hspan => ?_)
    · cases hrest with
      | nil =>
        refine hlast gap text _ (by simp) rfl ?_ hspells hcomplete
        simp [Nat.add_assoc]
      | token _ hspells' _ _ =>
        obtain ⟨c, cs, rfl, -⟩ := hspells'.exists_cons
        exact hcomplete.cut.append (by simp) after'
    · refine hlast (gap ++ (text ++ before)) text' t (by simp [hcs]) ?_ ?_
      · rw [List.getLast?_cons, ht]
        rfl
      · simpa only [Text.size_append, Nat.add_assoc] using hspan

end Front

/-- The tokens of a text stand at its front, and trivia follows the last one. -/
theorem Tiling.exists_front {table : Table} {offset : Nat} {cs : List Char} {tokens : List Token}
    (h : Tiling table offset cs tokens) : ∃ front gap body, cs = front ++ gap ∧
      Front table gap offset front body ∧ Trivia [] gap ∧
      tokens = body ++ [⟨.eof, ⟨offset + size cs, offset + size cs⟩⟩] := by
  induction h with
  | @eof offset gap htrivia => exact ⟨[], gap, [], rfl, .nil, htrivia, rfl⟩
  | @token offset gap text rest kind tokens htrivia hspells hcomplete _ ih =>
    obtain ⟨front, tail, body, rfl, hfront, htail, rfl⟩ := ih
    have hne : text ++ (front ++ tail) ≠ [] := by
      obtain ⟨c, cs, rfl, -⟩ := hspells.exists_cons
      simp
    have hgap := htrivia.filler hne (hspells.startsTrivia hcomplete)
    refine ⟨_, tail, _, ?_, .token hgap hspells hcomplete hfront, htail, ?_⟩
    · simp only [List.append_assoc]
    · simp only [Text.size_append, Nat.add_assoc, List.cons_append]

/-! ## Lines -/

/-- With a further line, the tokens of a text stay what they are. -/
theorem Tiling.tokensFrom_line {table : Table} {offset : Nat} {cs : List Char}
    {tokens : List Token} (h : Tiling table offset cs tokens) (line : List Char) :
    tokensFrom table offset (cs ++ '\n' :: line) =
      (tokensFrom table (offset + (size cs + 1)) line).map (tokens.dropLast ++ ·) := by
  obtain ⟨front, gap, body, rfl, hfront, htrivia, rfl⟩ := h.exists_front
  have hblank : Text.isBlank '\n' = true := by decide
  have hline : Front table (gap ++ '\n' :: line) offset front body := by
    refine hfront.follow fun before text t _ _ _ hspells hcomplete => ?_
    by_cases hgap : gap = []
    · subst hgap
      exact hspells.complete (by simp [hblank])
    · exact hcomplete.append hgap _
  rw [List.append_assoc, hline.tokensFrom_append, ← List.singleton_append, ← List.append_assoc,
    htrivia.filler_newline.tokensFrom_append, List.dropLast_concat]
  simp only [Text.size_append, Text.size_cons, Text.size_nil, Nat.add_assoc]
  rfl

end Lexer

/-- A further line has the tokens that it has alone, or the error, only further to the right, and
    it changes nothing in the tokens before it. -/
theorem tokenize_append_line (table : Table) (source line : String) (tokens : List Token)
    (h : tokenize table source = .ok tokens) :
    tokenize table (source ++ "\n" ++ line) =
      ((tokenize table line).mapError
        (LexError.relabel (.moved (source.utf8ByteSize + 1)))).map fun more =>
          tokens.dropLast ++ more.map (Token.relabel (.moved (source.utf8ByteSize + 1))) := by
  have hline := (tokenize_eq_ok_iff.mp h).tokensFrom_line line.toList
  have hchars : (source ++ "\n" ++ line).toList = source.toList ++ '\n' :: line.toList := by simp
  rw [Text.size_toList, Lexer.tokensFrom_add, Lexer.relabelAnswer] at hline
  change Lexer.tokensFrom table 0 (source ++ "\n" ++ line).toList = _
  rw [hchars, hline]
  change _ = ((Lexer.tokensFrom table 0 line.toList).mapError _).map _
  cases Lexer.tokensFrom table 0 line.toList <;> rfl

/-- The two halves of `==` do not come together over the end of a line. -/
theorem tokenize_append_line_halves :
    tokenize .english "=" = .ok [⟨.symbol .assign, ⟨0, 1⟩⟩, ⟨.eof, ⟨1, 1⟩⟩] ∧
    tokenize .english ("=" ++ "\n" ++ "=") = .ok
      [⟨.symbol .assign, ⟨0, 1⟩⟩, ⟨.symbol .assign, ⟨2, 3⟩⟩, ⟨.eof, ⟨3, 3⟩⟩] := by
  have hcomplete : Lexer.Complete (.symbol .assign) ['='] [] :=
    (@Lexer.Spells.symbol .english .assign).complete (by simp)
  have hassign : tokenize .english "=" = .ok [⟨.symbol .assign, ⟨0, 1⟩⟩, ⟨.eof, ⟨1, 1⟩⟩] :=
    tokenize_eq_ok_iff.mpr (.lexeme (.symbol .assign) hcomplete (.eof .nil))
  refine ⟨hassign, ?_⟩
  rw [tokenize_append_line .english "=" "=" _ hassign, hassign]
  rfl

end Respell
