-- SUMMARY: Splitting a source text into tokens.
import Respell.Token
import Respell.Decimal.Nearest
import Respell.Keyword.Table
import Respell.Text.Utf8

/-!
# From text to tokens

Between lexemes stands trivia: blanks, and comments from `//` to the end of their line. The first
character of a lexeme decides what it is, and the lexeme is then as long as it can be. The first
lexeme that is none ends the scan with an error.
-/

namespace Respell

/-- Why a source text has no tokens. -/
inductive LexError where
  /-- a character that starts no lexeme -/
  | invalidCharacter (char : Char) (span : Span)
  /-- a quote without a second one; the span is that of the quote -/
  | unterminatedString (span : Span)
deriving Repr, DecidableEq

namespace LexError

/-- Where the error is. -/
def span : LexError → Span
  | .invalidCharacter _ span => span
  | .unterminatedString span => span

/-- The message of the error. -/
def message : LexError → String
  | .invalidCharacter char _ => "Invalid character: " ++ char.toString
  | .unterminatedString _ => "Unterminated string"

end LexError

namespace Lexer

/-! ## Trivia -/

mutual

/-- Skip blanks and comments. The offset of the first character goes along. -/
def skipTrivia (offset : Nat) : List Char → Nat × List Char
  | [] => (offset, [])
  | c :: cs =>
    if Text.isBlank c then skipTrivia (offset + c.utf8Size) cs
    else if c = '/' ∧ cs.head? = some '/' then skipComment (offset + c.utf8Size) cs
    else (offset, c :: cs)

/-- Skip the rest of a comment, and the trivia from the end of its line on. -/
def skipComment (offset : Nat) : List Char → Nat × List Char
  | [] => (offset, [])
  | c :: cs =>
    if c = '\n' then skipTrivia (offset + c.utf8Size) cs
    else skipComment (offset + c.utf8Size) cs

end

/-! ## One lexeme -/

/-- What stands at the start of a text that is not empty. -/
inductive Lexeme where
  /-- a token, its text and what follows -/
  | token (kind : Kind) (text rest : List Char)
  /-- a quote without a second one -/
  | unterminated
  /-- a character that starts no lexeme -/
  | unknown

/-- A number: digits, and after a point digits again if there are any. -/
def readNumber (cs : List Char) : Lexeme :=
  let whole := cs.takeWhile Char.isDigit
  match cs.dropWhile Char.isDigit with
  | '.' :: rest =>
    let fraction := rest.takeWhile Char.isDigit
    .token (.number (Decimal.read whole fraction)) (whole ++ '.' :: fraction)
      (rest.dropWhile Char.isDigit)
  | rest => .token (.number (Decimal.read whole [])) whole rest

/-- The text between quotes, taken as it stands; `cs` follows the first quote. -/
def readText (cs : List Char) : Lexeme :=
  let contents := cs.takeWhile (· != '"')
  match cs.dropWhile (· != '"') with
  | [] => .unterminated
  | quote :: rest =>
    .token (.text (String.ofList contents)) ('"' :: contents ++ [quote]) rest

/-- A word: a keyword if the table has it, and otherwise a name. -/
def readWord (table : Table) (c : Char) (cs : List Char) : Lexeme :=
  let chars := c :: cs.takeWhile Text.isWordPart
  let name := String.ofList chars
  let kind := match table.lookup name with
    | some role => .keyword role
    | none => .word name
  .token kind chars (cs.dropWhile Text.isWordPart)

/-- A symbol. -/
def readSymbol (cs : List Char) : Lexeme :=
  match Symbol.atStart? cs with
  | some s => .token (.symbol s) s.chars (cs.drop s.chars.length)
  | none => .unknown

/-- The lexeme at the start of the text `c :: cs`. -/
def readLexeme (table : Table) (c : Char) (cs : List Char) : Lexeme :=
  if c.isDigit then readNumber (c :: cs)
  else if c = '"' then readText cs
  else if Text.isWordStart c then readWord table c cs
  else readSymbol (c :: cs)

/-! ## Nothing is lost, and every lexeme takes something -/

theorem length_skip_le (cs : List Char) : ∀ offset : Nat,
    (skipTrivia offset cs).2.length ≤ cs.length ∧
      (skipComment offset cs).2.length ≤ cs.length := by
  induction cs with
  | nil => simp [skipTrivia, skipComment]
  | cons c cs ih =>
    intro offset
    have h := ih (offset + c.utf8Size)
    constructor
    · rw [skipTrivia]
      split
      · exact Nat.le_succ_of_le h.1
      · split
        · exact Nat.le_succ_of_le h.2
        · exact Nat.le_refl _
    · rw [skipComment]
      split
      · exact Nat.le_succ_of_le h.1
      · exact Nat.le_succ_of_le h.2

theorem readNumber_append {cs text rest : List Char} {kind : Kind}
    (h : readNumber cs = .token kind text rest) : text ++ rest = cs := by
  have hcs := List.takeWhile_append_dropWhile (p := Char.isDigit) (l := cs)
  unfold readNumber at h
  dsimp only at h
  split at h
  · next after hd =>
    have hafter := List.takeWhile_append_dropWhile (p := Char.isDigit) (l := after)
    cases h
    rw [hd] at hcs
    simpa [hafter] using hcs
  · cases h
    exact hcs

theorem readText_append {cs text rest : List Char} {kind : Kind}
    (h : readText cs = .token kind text rest) : text ++ rest = '"' :: cs := by
  have hcs := List.takeWhile_append_dropWhile (p := (· != '"')) (l := cs)
  unfold readText at h
  dsimp only at h
  split at h
  · cases h
  · next quote after hd =>
    cases h
    rw [hd] at hcs
    simpa using hcs

theorem readWord_append {table : Table} {c : Char} {cs text rest : List Char} {kind : Kind}
    (h : readWord table c cs = .token kind text rest) : text ++ rest = c :: cs := by
  cases h
  simp

theorem readSymbol_append {cs text rest : List Char} {kind : Kind}
    (h : readSymbol cs = .token kind text rest) : text ++ rest = cs := by
  unfold readSymbol at h
  split at h
  · next s hs =>
    cases h
    obtain ⟨after, rfl⟩ := Symbol.chars_of_atStart? hs
    simp
  · cases h

/-- The text of a lexeme and what follows make up the input. -/
theorem readLexeme_append {table : Table} {c : Char} {cs text rest : List Char} {kind : Kind}
    (h : readLexeme table c cs = .token kind text rest) : text ++ rest = c :: cs := by
  unfold readLexeme at h
  split at h
  · exact readNumber_append h
  · split at h
    · next hc => exact hc ▸ readText_append h
    · split at h
      · exact readWord_append h
      · exact readSymbol_append h

/-- The text of a lexeme is not empty. -/
theorem readLexeme_text_ne_nil {table : Table} {c : Char} {cs text rest : List Char} {kind : Kind}
    (h : readLexeme table c cs = .token kind text rest) : text ≠ [] := by
  unfold readLexeme at h
  split at h
  · next hc =>
    unfold readNumber at h
    dsimp only at h
    split at h <;> cases h <;> simp [hc]
  · split at h
    · unfold readText at h
      dsimp only at h
      split at h <;> cases h
      simp
    · split at h
      · cases h
        simp
      · unfold readSymbol at h
        split at h <;> cases h
        exact Symbol.chars_ne_nil _

theorem length_rest_lt {table : Table} {c : Char} {cs text rest : List Char} {kind : Kind}
    (h : readLexeme table c cs = .token kind text rest) : rest.length < (c :: cs).length := by
  have hpos := List.length_pos_iff.mpr (readLexeme_text_ne_nil h)
  rw [← readLexeme_append h, List.length_append]
  omega

/-! ## All lexemes -/

/-- The tokens of a text that starts at the given offset and with no trivia. -/
def scan (table : Table) (offset : Nat) (cs : List Char) : Except LexError (List Token) :=
  match cs with
  | [] => .ok [⟨.eof, ⟨offset, offset⟩⟩]
  | c :: cs =>
    match h : readLexeme table c cs with
    | .unknown => .error (.invalidCharacter c ⟨offset, offset + c.utf8Size⟩)
    | .unterminated => .error (.unterminatedString ⟨offset, offset + 1⟩)
    | .token kind text rest =>
      let stop := offset + Text.size text
      let next := skipTrivia stop rest
      match scan table next.1 next.2 with
      | .error e => .error e
      | .ok tokens => .ok (⟨kind, ⟨offset, stop⟩⟩ :: tokens)
termination_by cs.length
decreasing_by
  exact Nat.lt_of_le_of_lt (length_skip_le rest _).1 (length_rest_lt h)

end Lexer

/-- The tokens of a source text, with the end of the input as the last one. -/
def tokenize (table : Table) (source : String) : Except LexError (List Token) :=
  let start := Lexer.skipTrivia 0 source.toList
  Lexer.scan table start.1 start.2

end Respell
