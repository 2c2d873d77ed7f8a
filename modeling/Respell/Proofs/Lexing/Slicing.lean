-- SUMMARY: A piece of the source that starts and ends with a token has the same tokens alone.
import Respell.Proofs.Lexing.Writing
import Respell.Proofs.Parsing.Mirroring

/-!
# Cutting a source at its tokens

What the lexer finds depends on nothing to its left, and of what stands to its right only on how far
a lexeme could go on. So tokens that stand next to each other are found again when the text from the
start of the first to the end of the last is all there is (`Tiling.slice`). They then stand further
to the left, which is a matter of labels (`Tiling.moveLeft`).
-/

namespace Respell

/-! ## Moving tokens -/

/-- Names stay, and spans move right. -/
def Labels.moved (n : Nat) : Labels :=
  ⟨id, Span.shift n⟩

/-- A lexical error with other labels. -/
def LexError.relabel (ℓ : Labels) : LexError → LexError
  | .invalidCharacter c s => .invalidCharacter c (ℓ.span s)
  | .unterminatedString s => .unterminatedString (ℓ.span s)

theorem Labels.moved_merges (n : Nat) : (Labels.moved n).Merges :=
  fun a b => Span.shift_merge n a b

@[simp] theorem Token.relabel_moved (n : Nat) (t : Token) :
    t.relabel (.moved n) = ⟨t.kind, t.span.shift n⟩ := by
  rw [relabel, Kind.relabel_of_name rfl]
  rfl

namespace Lexer

open Text (Stops size)

/-- The answer of the lexer with other labels. -/
def relabelAnswer (ℓ : Labels) (answer : Except LexError (List Token)) :
    Except LexError (List Token) :=
  (answer.mapError (LexError.relabel ℓ)).map (List.map (Token.relabel ℓ))

/-- Where a text starts has a bearing on nothing but the spans of its tokens and of its error. -/
theorem tokensFrom_add (table : Table) (offset n : Nat) (cs : List Char) :
    tokensFrom table (offset + n) cs = relabelAnswer (.moved n) (tokensFrom table offset cs) := by
  obtain ⟨gap, rest, hcs, htrivia, hstop, hskip⟩ := exists_skipTrivia cs offset
  have hskip' : skipTrivia (offset + n) cs = (offset + size gap + n, rest) := by
    rw [hcs, htrivia.skip hstop, Nat.add_right_comm]
  rw [tokensFrom, tokensFrom, hskip, hskip']
  cases rest with
  | nil =>
    rw [scan, scan]
    rfl
  | cons c after =>
    dsimp only
    cases hlexeme : readLexeme table c after with
    | unknown =>
      rw [scan_of_unknown hlexeme, scan_of_unknown hlexeme, Nat.add_right_comm _ n]
      rfl
    | unterminated =>
      rw [scan_of_unterminated hlexeme, scan_of_unterminated hlexeme, Nat.add_right_comm _ n 1]
      rfl
    | token kind text rest =>
      have hlength : rest.length < cs.length := by
        have := length_rest_lt hlexeme
        simp only [hcs, List.length_append]
        omega
      have ih := tokensFrom_add table (offset + size gap + size text) n rest
      rw [scan_of_token hlexeme, scan_of_token hlexeme,
        Nat.add_right_comm _ n, ih]
      cases tokensFrom table (offset + size gap + size text) rest with
      | error e => rfl
      | ok tokens => simp [relabelAnswer, Except.map, Except.mapError, Span.shift]
termination_by cs.length

theorem Tiling.moveLeft {table : Table} {offset n : Nat} {cs : List Char} {tokens : List Token}
    (h : Tiling table (offset + n) cs tokens) :
    ∃ tokens', Tiling table offset cs tokens' ∧
      tokens = tokens'.map (Token.relabel (.moved n)) := by
  have hfrom := h.tokensFrom_eq
  rw [tokensFrom_add] at hfrom
  cases htokens : tokensFrom table offset cs with
  | error e =>
    rw [htokens] at hfrom
    cases hfrom
  | ok tokens' =>
    rw [htokens] at hfrom
    exact ⟨tokens', tiling_of_tokensFrom cs htokens, (Except.ok.inj hfrom).symm⟩

/-! ## Cutting off what follows -/

theorem LineEnd.cut {cs more : List Char} (h : LineEnd (cs ++ more)) : LineEnd cs := by
  cases cs with
  | nil => exact .inl rfl
  | cons c cs =>
    obtain h | ⟨rest, h⟩ := h
    · cases h
    · exact .inr ⟨cs, by rw [(List.cons.inj h).1]⟩

theorem Trivia.cut {after more gap : List Char} (h : Trivia (after ++ more) gap) :
    Trivia after gap := by
  induction h with
  | nil => exact .nil
  | blank hc _ ih => exact .blank hc ih
  | comment hbody hend _ ih =>
    rw [← List.append_assoc] at hend
    exact .comment hbody hend.cut ih

theorem stops_cut {p : Char → Bool} {rest more : List Char} (h : Stops p (rest ++ more)) :
    Stops p rest := by
  cases rest with
  | nil => exact Text.stops_nil p
  | cons c rest => exact Text.stops_cons.mpr (Text.stops_cons.mp h)

theorem Complete.cut {kind : Kind} {text rest more : List Char}
    (h : Complete kind text (rest ++ more)) : Complete kind text rest := by
  cases kind with
  | keyword role => exact stops_cut h
  | word name => exact stops_cut h
  | number value => exact ⟨stops_cut h.1, fun hdot => stops_cut (h.2 hdot)⟩
  | text contents => trivial
  | eof => trivial
  | symbol s =>
    refine ⟨fun t ht => h.1 t ?_, fun hs => stops_cut (h.2 hs)⟩
    rw [← List.append_assoc]
    exact ht.trans (List.prefix_append _ _)

namespace Tiling

variable {table : Table} {offset : Nat} {cs : List Char}

/-- The first tokens of a source are the tokens of the text up to the end of the last of them. -/
theorem take {ts rest : List Token} (h : Tiling table offset cs (ts ++ rest))
    (hts : ∀ t ∈ ts, t.kind ≠ .eof) :
    ∃ text after, cs = text ++ after ∧
      Tiling table offset text (ts ++ [⟨.eof, ⟨offset + size text, offset + size text⟩⟩]) ∧
      offset + size text = ts.getLast?.elim offset fun last => last.span.stop := by
  induction ts generalizing offset cs with
  | nil => exact ⟨[], cs, rfl, .eof .nil, rfl⟩
  | cons t ts ih =>
    rw [List.forall_mem_cons] at hts
    generalize htokens : t :: ts ++ rest = tokens at h
    cases h with
    | eof => exact absurd (congrArg Token.kind (List.cons.inj htokens).1) hts.1
    | @token _ gap text tail kind _ htrivia hspells hcomplete htail =>
      obtain ⟨rfl, rfl⟩ := List.cons.inj htokens
      obtain ⟨more, after, rfl, htiling, hlast⟩ := ih htail hts.2
      rw [← List.append_assoc] at htrivia
      have hsize : offset + size gap + size text + size more =
          offset + size (gap ++ (text ++ more)) := by
        simp only [Text.size_append, Nat.add_assoc]
      rw [hsize] at htiling hlast
      refine ⟨gap ++ (text ++ more), after, by simp, ?_, ?_⟩
      · exact .token htrivia.cut hspells hcomplete.cut htiling
      · rw [hlast, List.getLast?_cons]
        cases ts.getLast? <;> rfl

/-- The tokens from one on are the tokens of the text from its start on. -/
theorem drop {before after : List Token} {t : Token}
    (h : Tiling table offset cs (before ++ t :: after)) (ht : t.kind ≠ .eof) :
    ∃ left rest, cs = left ++ rest ∧ t.span.start = offset + size left ∧
      Tiling table (offset + size left) rest (t :: after) := by
  induction before generalizing offset cs with
  | nil =>
    cases h with
    | eof => exact absurd rfl ht
    | @token _ gap text rest kind _ _ hspells hcomplete htail =>
      exact ⟨gap, text ++ rest, rfl, rfl, .lexeme hspells hcomplete htail⟩
  | cons u before ih =>
    generalize htokens : u :: before ++ t :: after = tokens at h
    cases h with
    | eof => simp at htokens
    | @token _ gap text tail kind _ _ _ _ htail =>
      obtain ⟨-, rfl⟩ := List.cons.inj htokens
      obtain ⟨left, rest, rfl, hstart, htiling⟩ := ih htail
      refine ⟨gap ++ (text ++ left), rest, by simp, ?_, ?_⟩
      · simpa only [Text.size_append, Nat.add_assoc] using hstart
      · simpa only [Text.size_append, Nat.add_assoc] using htiling

/-- Tokens that stand next to each other are the tokens of the text from the start of the first to
    the end of the last. -/
theorem slice {before ts after : List Token} {first last : Token}
    (h : Tiling table offset cs (before ++ (ts ++ after))) (hts : ∀ t ∈ ts, t.kind ≠ .eof)
    (hfirst : ts.head? = some first) (hlast : ts.getLast? = some last) :
    ∃ left text right, cs = left ++ (text ++ right) ∧ first.span.start = offset + size left ∧
      last.span.stop = offset + size left + size text ∧
      Tiling table first.span.start text (ts ++ [⟨.eof, ⟨last.span.stop, last.span.stop⟩⟩]) := by
  obtain ⟨us, rfl⟩ := List.head?_eq_some_iff.mp hfirst
  obtain ⟨left, rest, rfl, hstart, hrest⟩ := h.drop (hts first List.mem_cons_self)
  have hsplit : Tiling table (offset + size left) rest (first :: us ++ after) := hrest
  obtain ⟨text, right, rfl, htext, hstop⟩ := hsplit.take hts
  rw [hlast] at hstop
  rw [hstop, ← hstart] at htext
  exact ⟨left, text, right, rfl, hstart, hstop.symm, htext⟩

end Tiling

end Lexer

end Respell
