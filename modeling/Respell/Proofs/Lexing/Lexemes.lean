-- SUMMARY: What trivia and lexemes are, apart from the functions that read them.
import Mathlib.Data.List.TakeWhile
import Respell.Token.Lexer

/-!
# Trivia and lexemes

The lexer skips trivia and reads the lexeme that follows. Here both are described without it: trivia
is a sequence of blanks and comments, and a lexeme is a text that spells a kind of token and is
complete, which means that what follows cannot make it longer. `skipTrivia` and `readLexeme` are
then shown to find exactly these.
-/

namespace Respell

/-! ## Characters -/

namespace Text

/-- What follows does not start with a character of the class. -/
def Stops (p : Char → Bool) (rest : List Char) : Prop :=
  ∀ c ∈ rest.head?, p c = false

theorem stops_nil (p : Char → Bool) : Stops p [] := nofun

theorem stops_cons {p : Char → Bool} {c : Char} {cs : List Char} :
    Stops p (c :: cs) ↔ p c = false := by
  simp [Stops]

theorem stops_dropWhile (p : Char → Bool) (cs : List Char) : Stops p (cs.dropWhile p) := by
  induction cs with
  | nil => exact stops_nil p
  | cons c cs ih =>
    rw [List.dropWhile_cons]
    split
    · exact ih
    · next h => exact stops_cons.mpr (Bool.not_eq_true _ ▸ h)

theorem Stops.takeWhile_append {p : Char → Bool} {cs rest : List Char} (h : Stops p rest)
    (hall : ∀ c ∈ cs, p c = true) : (cs ++ rest).takeWhile p = cs := by
  rw [List.takeWhile_append_of_pos hall]
  cases rest with
  | nil => simp
  | cons c rest => simp [stops_cons.mp h]

theorem Stops.dropWhile_append {p : Char → Bool} {cs rest : List Char} (h : Stops p rest)
    (hall : ∀ c ∈ cs, p c = true) : (cs ++ rest).dropWhile p = rest := by
  rw [List.dropWhile_append_of_pos hall]
  cases rest with
  | nil => simp
  | cons c rest => simp [stops_cons.mp h]

theorem Stops.head?_ne {p : Char → Bool} {rest : List Char} {c : Char} (h : Stops p rest)
    (hc : p c = true) : rest.head? ≠ some c :=
  fun hhead => Bool.false_ne_true ((h c hhead).symm.trans hc)

/-- All characters of a text that does not have `c` are others. -/
theorem forall_bne {c : Char} {cs : List Char} (h : c ∉ cs) : ∀ d ∈ cs, (d != c) = true := by
  intro d hd
  rw [bne_iff_ne]
  rintro rfl
  exact h hd

/-- A run of one class of characters and what follows it can be told apart. -/
theorem append_inj_of_stops {p : Char → Bool} {cs ds rest rest' : List Char}
    (hcs : ∀ c ∈ cs, p c = true) (hds : ∀ c ∈ ds, p c = true) (hr : Stops p rest)
    (hr' : Stops p rest') (h : cs ++ rest = ds ++ rest') : cs = ds ∧ rest = rest' := by
  constructor
  · rw [← hr.takeWhile_append hcs, h, hr'.takeWhile_append hds]
  · rw [← hr.dropWhile_append hcs, h, hr'.dropWhile_append hds]

/-- The code points of the blanks. -/
def blanks : List Nat :=
  List.range' 0x09 5 ++ List.range' 0x2000 11 ++
    [0x20, 0x85, 0xA0, 0x1680, 0x2028, 0x2029, 0x202F, 0x205F, 0x3000]

theorem toNat_mem_blanks {c : Char} (h : isBlank c = true) : c.toNat ∈ blanks := by
  simp only [isBlank, Bool.or_eq_true, Bool.and_eq_true, decide_eq_true_eq, beq_iff_eq] at h
  simp only [blanks, List.mem_append, List.mem_range'_1, List.mem_cons, List.not_mem_nil, or_false]
  omega

theorem toNat_mem_range_of_isDigit {c : Char} (h : c.isDigit = true) :
    c.toNat ∈ List.range' 48 10 := by
  simp only [Char.isDigit, Bool.and_eq_true, decide_eq_true_eq, ge_iff_le, UInt32.le_iff_toNat_le]
    at h
  have hlo : 48 ≤ c.toNat := h.1
  have hhi : c.toNat ≤ 57 := h.2
  simp only [List.mem_range'_1]
  omega

/-- A class that has none of the code points that the character may be. -/
theorem eq_false_of_toNat_mem {p : Char → Bool} {ns : List Nat}
    (hp : ∀ n ∈ ns, p (Char.ofNat n) = false) {c : Char} (h : c.toNat ∈ ns) : p c = false := by
  rw [← c.ofNat_toNat]
  exact hp c.toNat h

theorem isWordPart_of_isBlank {c : Char} (h : isBlank c = true) : isWordPart c = false :=
  eq_false_of_toNat_mem (by decide +kernel) (toNat_mem_blanks h)

theorem isDigit_of_isBlank {c : Char} (h : isBlank c = true) : c.isDigit = false :=
  eq_false_of_toNat_mem (by decide +kernel) (toNat_mem_blanks h)

theorem isWordStart_of_isDigit {c : Char} (h : c.isDigit = true) : isWordStart c = false :=
  eq_false_of_toNat_mem (by decide +kernel) (toNat_mem_range_of_isDigit h)

theorem isBlank_of_isWordStart {c : Char} (h : isWordStart c = true) : isBlank c = false := by
  rw [← Bool.not_eq_true]
  intro hb
  have hpart := isWordPart_of_isWordStart h
  rw [isWordPart_of_isBlank hb] at hpart
  cases hpart

theorem isDigit_of_isWordStart {c : Char} (h : isWordStart c = true) : c.isDigit = false := by
  rw [← Bool.not_eq_true]
  intro hd
  rw [isWordStart_of_isDigit hd] at h
  cases h

end Text

/-! ## Symbols -/

namespace Symbol

theorem chars_injective {s t : Symbol} (h : s.chars = t.chars) : s = t := by
  have hall : ∀ s ∈ all, ∀ t ∈ all, s.chars = t.chars → s = t := by decide
  exact hall s s.mem_all t t.mem_all h

/-- The first character of a symbol starts nothing else, and only `/` starts with a slash. -/
theorem exists_cons_chars (s : Symbol) : ∃ c cs, s.chars = c :: cs ∧ c.isDigit = false ∧
    c ≠ '"' ∧ Text.isWordStart c = false ∧ Text.isBlank c = false ∧
      (c = '/' → s = .slash ∧ cs = []) := by
  cases s <;> exact ⟨_, _, rfl, by decide⟩

/-- The symbols are listed with the longer ones first. -/
theorem pairwise_length_all :
    all.Pairwise fun s t => t.chars.length ≤ s.chars.length := by
  decide

theorem length_le_of_atStart? {cs : List Char} {s t : Symbol} (h : atStart? cs = some s)
    (ht : t.chars <+: cs) : t.chars.length ≤ s.chars.length := by
  obtain ⟨-, before, after, hall, hbefore⟩ := List.find?_eq_some_iff_append.mp h
  have hsorted := pairwise_length_all
  rw [hall] at hsorted
  have hmem : t ∈ before ++ s :: after := hall ▸ t.mem_all
  rcases List.mem_append.mp hmem with hb | ha
  · have := hbefore t hb
    simp [List.isPrefixOf_iff_prefix.mpr ht] at this
  · rcases List.mem_cons.mp ha with rfl | ha
    · exact Nat.le_refl _
    · exact (List.pairwise_cons.mp (List.pairwise_append.mp hsorted).2.1).1 t ha

/-- The symbol is read that no other one makes longer. -/
theorem atStart?_of_longest {s : Symbol} {rest : List Char}
    (h : ∀ t : Symbol, t.chars <+: s.chars ++ rest → t.chars.length ≤ s.chars.length) :
    atStart? (s.chars ++ rest) = some s := by
  have hs : s.chars <+: s.chars ++ rest := List.prefix_append _ _
  cases hfound : atStart? (s.chars ++ rest) with
  | none =>
    have := List.find?_eq_none.mp hfound s s.mem_all
    simp [List.isPrefixOf_iff_prefix.mpr hs] at this
  | some t =>
    have ht := chars_of_atStart? hfound
    have hlen : t.chars.length = s.chars.length :=
      Nat.le_antisymm (h t ht) (length_le_of_atStart? hfound hs)
    have heq := (List.prefix_of_prefix_length_le ht hs (Nat.le_of_eq hlen)).eq_of_length hlen
    rw [chars_injective heq]

end Symbol

/-! ## Trivia -/

namespace Lexer

open Text (Stops size)

/-- The end of a line, or of the source. -/
def LineEnd (cs : List Char) : Prop :=
  cs = [] ∨ ∃ rest, cs = '\n' :: rest

/-- Blanks and comments, before `after`. A comment runs up to the end of its line, which does not
    belong to it. -/
inductive Trivia (after : List Char) : List Char → Prop where
  | nil : Trivia after []
  | blank {c : Char} {cs : List Char} : Text.isBlank c = true → Trivia after cs →
      Trivia after (c :: cs)
  | comment {body cs : List Char} : '\n' ∉ body → LineEnd (cs ++ after) → Trivia after cs →
      Trivia after ('/' :: '/' :: (body ++ cs))

/-- Whether a blank or a comment stands at the start. -/
def startsTrivia : List Char → Bool
  | [] => false
  | c :: cs => Text.isBlank c || (c == '/' && cs.head? == some '/')

theorem skipComment_append {body cs : List Char} (h : '\n' ∉ body) (offset : Nat) :
    skipComment offset (body ++ cs) = skipComment (offset + size body) cs := by
  induction body generalizing offset with
  | nil => rfl
  | cons c body ih =>
    have hc : c ≠ '\n' := fun hc => h (hc ▸ List.mem_cons_self)
    rw [List.cons_append, skipComment, if_neg hc, ih (fun hb => h (List.mem_cons_of_mem c hb)),
      Text.size_cons, Nat.add_assoc]

theorem skipComment_of_lineEnd {cs : List Char} (h : LineEnd cs) (offset : Nat) :
    skipComment offset cs = skipTrivia offset cs := by
  rcases h with rfl | ⟨rest, rfl⟩
  · rfl
  · rw [skipComment, if_pos rfl, skipTrivia, if_pos (by decide)]

theorem skipTrivia_of_startsTrivia {cs : List Char} (h : startsTrivia cs = false) (offset : Nat) :
    skipTrivia offset cs = (offset, cs) := by
  cases cs with
  | nil => rfl
  | cons c cs =>
    simp only [startsTrivia, Bool.or_eq_false_iff, Bool.and_eq_false_iff] at h
    rw [skipTrivia, if_neg (by simp [h.1]), if_neg]
    rintro ⟨rfl, hslash⟩
    simp [hslash] at h

/-- Trivia is skipped, all of it. -/
theorem Trivia.skip {after gap : List Char} (h : Trivia after gap)
    (hafter : startsTrivia after = false) (offset : Nat) :
    skipTrivia offset (gap ++ after) = (offset + size gap, after) := by
  induction h generalizing offset with
  | nil => exact skipTrivia_of_startsTrivia hafter offset
  | @blank c cs hc _ ih =>
    rw [List.cons_append, skipTrivia, if_pos hc, ih, Text.size_cons, Nat.add_assoc]
  | @comment body cs hbody hend _ ih =>
    have hslash : Text.isBlank '/' = false := by decide
    simp only [List.cons_append, List.append_assoc]
    rw [skipTrivia, if_neg (by simp [hslash]), if_pos (by simp), skipComment, if_neg (by decide),
      skipComment_append hbody, skipComment_of_lineEnd hend, ih]
    simp only [Text.size_cons, Text.size_append]
    congr 1
    omega

/-- A comment takes all up to the end of the line. -/
theorem exists_skipComment (cs : List Char) (offset : Nat) :
    ∃ body rest, cs = body ++ rest ∧ '\n' ∉ body ∧ LineEnd rest ∧
      skipComment offset cs = skipTrivia (offset + size body) rest := by
  induction cs generalizing offset with
  | nil => exact ⟨[], [], rfl, by simp, .inl rfl, rfl⟩
  | cons c cs ih =>
    by_cases hc : c = '\n'
    · subst hc
      exact ⟨[], _, rfl, by simp, .inr ⟨cs, rfl⟩, skipComment_of_lineEnd (.inr ⟨cs, rfl⟩) offset⟩
    · obtain ⟨body, rest, rfl, hbody, hend, hskip⟩ := ih (offset + c.utf8Size)
      refine ⟨c :: body, rest, rfl, ?_, hend, ?_⟩
      · simpa [hbody] using Ne.symm hc
      · rw [skipComment, if_neg hc, hskip, Text.size_cons, Nat.add_assoc]

/-- What is skipped is trivia, and none is left. -/
theorem exists_skipTrivia (cs : List Char) (offset : Nat) :
    ∃ gap rest, cs = gap ++ rest ∧ Trivia rest gap ∧ startsTrivia rest = false ∧
      skipTrivia offset cs = (offset + size gap, rest) := by
  match cs with
  | [] => exact ⟨[], [], rfl, .nil, rfl, rfl⟩
  | c :: cs =>
    by_cases hb : Text.isBlank c = true
    · obtain ⟨gap, rest, rfl, htrivia, hstop, hskip⟩ :=
        exists_skipTrivia cs (offset + c.utf8Size)
      refine ⟨c :: gap, rest, rfl, .blank hb htrivia, hstop, ?_⟩
      rw [skipTrivia, if_pos hb, hskip, Text.size_cons, Nat.add_assoc]
    · by_cases hs : c = '/' ∧ cs.head? = some '/'
      · obtain ⟨rfl, hhead⟩ := hs
        obtain ⟨cs, rfl⟩ : ∃ tail, cs = '/' :: tail := List.head?_eq_some_iff.mp hhead
        obtain ⟨body, mid, rfl, hbody, hend, hcomment⟩ := exists_skipComment cs (offset + 2)
        obtain ⟨gap, rest, rfl, htrivia, hstop, hskip⟩ :=
          exists_skipTrivia mid (offset + 2 + size body)
        refine ⟨'/' :: '/' :: (body ++ gap), rest, by simp, .comment hbody hend htrivia, hstop, ?_⟩
        rw [skipTrivia, if_neg hb, if_pos ⟨rfl, hhead⟩, skipComment, if_neg (by decide)]
        rw [show offset + '/'.utf8Size + '/'.utf8Size = offset + 2 from rfl, hcomment, hskip]
        simp only [Text.size_cons, Text.size_append]
        congr 1
        rw [show '/'.utf8Size = 1 from rfl]
        omega
      · have hstop : startsTrivia (c :: cs) = false := by
          simp only [startsTrivia, Bool.or_eq_false_iff, Bool.and_eq_false_iff]
          refine ⟨Bool.not_eq_true _ ▸ hb, ?_⟩
          by_cases hc : c = '/'
          · exact .inr (by simpa [hc] using hs)
          · exact .inl (by simpa using hc)
        exact ⟨[], c :: cs, rfl, .nil, hstop, skipTrivia_of_startsTrivia hstop offset⟩
termination_by cs.length

/-! ## Lexemes -/

/-- Digits, at least one. -/
def IsDigits (cs : List Char) : Prop :=
  cs ≠ [] ∧ ∀ c ∈ cs, c.isDigit = true

/-- The text spells a token of this kind. -/
inductive Spells (table : Table) : Kind → List Char → Prop where
  | keyword {role : Role} {word : List Char} : Text.isWordChars word = true →
      table.lookup (String.ofList word) = some role → Spells table (.keyword role) word
  | word {word : List Char} : Text.isWordChars word = true →
      table.lookup (String.ofList word) = none → Spells table (.word (String.ofList word)) word
  | whole {whole : List Char} : IsDigits whole →
      Spells table (.number (Decimal.read whole [])) whole
  | decimal {whole fraction : List Char} : IsDigits whole →
      (∀ c ∈ fraction, c.isDigit = true) →
      Spells table (.number (Decimal.read whole fraction)) (whole ++ '.' :: fraction)
  | text {contents : List Char} : '"' ∉ contents →
      Spells table (.text (String.ofList contents)) ('"' :: (contents ++ ['"']))
  | symbol (s : Symbol) : Spells table (.symbol s) s.chars

/-- What follows the text of a token cannot make it longer. -/
def Complete (kind : Kind) (text rest : List Char) : Prop :=
  match kind with
  | .keyword _ => Stops Text.isWordPart rest
  | .word _ => Stops Text.isWordPart rest
  | .number _ => Stops Char.isDigit rest ∧ ('.' ∉ text → Stops (· == '.') rest)
  | .text _ => True
  | .symbol s =>
    (∀ t : Symbol, t.chars <+: s.chars ++ rest → t.chars.length ≤ s.chars.length) ∧
      (s = .slash → Stops (· == '/') rest)
  | .eof => True

theorem Spells.ne_eof {table : Table} {kind : Kind} {text : List Char}
    (h : Spells table kind text) : kind ≠ .eof := by
  rintro rfl
  cases h

theorem dot_not_mem_of_digits {cs : List Char} (h : ∀ c ∈ cs, c.isDigit = true) : '.' ∉ cs := by
  intro hdot
  have := h '.' hdot
  revert this
  decide

/-! ### Reading a lexeme -/

theorem readNumber_spells {table : Table} {c : Char} {cs text rest : List Char} {kind : Kind}
    (hc : c.isDigit = true) (h : readNumber (c :: cs) = .token kind text rest) :
    Spells table kind text ∧ Complete kind text rest := by
  have hdigits : IsDigits ((c :: cs).takeWhile Char.isDigit) :=
    ⟨by simp [hc], fun d hd => (List.mem_takeWhile_imp hd)⟩
  have hstop := Text.stops_dropWhile Char.isDigit (c :: cs)
  unfold readNumber at h
  dsimp only at h
  split at h
  · next after hd =>
    cases h
    refine ⟨.decimal hdigits fun d hd => List.mem_takeWhile_imp hd, ?_, fun hdot => ?_⟩
    · exact Text.stops_dropWhile Char.isDigit after
    · simp at hdot
  · next hd =>
    cases h
    refine ⟨.whole hdigits, hstop, fun _ => ?_⟩
    generalize (c :: cs).dropWhile Char.isDigit = after at hd
    cases after with
    | nil => exact Text.stops_nil _
    | cons d after =>
      refine Text.stops_cons.mpr ?_
      rw [beq_eq_false_iff_ne]
      rintro rfl
      exact hd after rfl

theorem readText_spells {table : Table} {cs text rest : List Char} {kind : Kind}
    (h : readText cs = .token kind text rest) :
    Spells table kind text ∧ Complete kind text rest := by
  have hstop := Text.stops_dropWhile (· != '"') cs
  unfold readText at h
  dsimp only at h
  split at h
  · cases h
  · next quote after hd =>
    cases h
    rw [hd, Text.stops_cons] at hstop
    obtain rfl : quote = '"' := by simpa using hstop
    refine ⟨.text fun hmem => ?_, trivial⟩
    simpa using List.mem_takeWhile_imp hmem

theorem readWord_spells {table : Table} {c : Char} {cs text rest : List Char} {kind : Kind}
    (hc : Text.isWordStart c = true) (h : readWord table c cs = .token kind text rest) :
    Spells table kind text ∧ Complete kind text rest := by
  have hword : Text.isWordChars (c :: cs.takeWhile Text.isWordPart) = true := by
    simp only [Text.isWordChars, hc, Bool.true_and, List.all_eq_true]
    exact fun d hd => List.mem_takeWhile_imp hd
  have hstop := Text.stops_dropWhile Text.isWordPart cs
  unfold readWord at h
  dsimp only at h
  cases hl : table.lookup (String.ofList (c :: cs.takeWhile Text.isWordPart)) with
  | none =>
    rw [hl] at h
    cases h
    exact ⟨.word hword hl, hstop⟩
  | some role =>
    rw [hl] at h
    cases h
    exact ⟨.keyword hword hl, hstop⟩

theorem readSymbol_spells {table : Table} {cs text rest : List Char} {kind : Kind}
    (hcs : startsTrivia cs = false) (h : readSymbol cs = .token kind text rest) :
    Spells table kind text ∧ Complete kind text rest := by
  have happend := readSymbol_append h
  unfold readSymbol at h
  split at h
  · next s hs =>
    cases h
    refine ⟨.symbol s, fun t ht => ?_, ?_⟩
    · rw [happend] at ht
      exact Symbol.length_le_of_atStart? hs ht
    · rintro rfl
      rw [← happend] at hcs
      generalize cs.drop Symbol.slash.chars.length = after at hcs
      cases after with
      | nil => exact Text.stops_nil _
      | cons d after =>
        have hslash : Text.isBlank '/' = false := by decide
        simpa [Symbol.chars, startsTrivia, Text.stops_cons, hslash] using hcs
  · cases h

/-- What is read is a lexeme, and as long as it can be. -/
theorem readLexeme_spells {table : Table} {c : Char} {cs text rest : List Char} {kind : Kind}
    (hcs : startsTrivia (c :: cs) = false) (h : readLexeme table c cs = .token kind text rest) :
    Spells table kind text ∧ Complete kind text rest := by
  unfold readLexeme at h
  split at h
  · next hdigit => exact readNumber_spells hdigit h
  · split at h
    · exact readText_spells h
    · split at h
      · next hstart => exact readWord_spells hstart h
      · exact readSymbol_spells hcs h

/-! ### Every complete lexeme is read -/

theorem exists_cons_of_isWordChars {word : List Char} (h : Text.isWordChars word = true) :
    ∃ c cs, word = c :: cs ∧ Text.isWordStart c = true ∧ ∀ d ∈ cs, Text.isWordPart d = true := by
  cases word with
  | nil => cases h
  | cons c cs =>
    simp only [Text.isWordChars, Bool.and_eq_true, List.all_eq_true] at h
    exact ⟨c, cs, rfl, h⟩

theorem IsDigits.exists_cons {cs : List Char} (h : IsDigits cs) :
    ∃ d ds, cs = d :: ds ∧ d.isDigit = true := by
  cases cs with
  | nil => exact absurd rfl h.1
  | cons d ds => exact ⟨d, ds, rfl, h.2 d List.mem_cons_self⟩

theorem readLexeme_of_isDigit {table : Table} {c : Char} {cs : List Char} (h : c.isDigit = true) :
    readLexeme table c cs = readNumber (c :: cs) := by
  rw [readLexeme, if_pos h]

theorem readLexeme_of_isWordStart {table : Table} {c : Char} {cs : List Char}
    (h : Text.isWordStart c = true) : readLexeme table c cs = readWord table c cs := by
  have hquote : c ≠ '"' := by
    rintro rfl
    revert h
    decide
  rw [readLexeme, if_neg (by simp [Text.isDigit_of_isWordStart h]), if_neg hquote, if_pos h]

theorem readLexeme_symbol {table : Table} {s : Symbol} {rest cs : List Char} {c : Char}
    (heq : s.chars ++ rest = c :: cs) : readLexeme table c cs = readSymbol (s.chars ++ rest) := by
  obtain ⟨d, ds, hchars, hdigit, hquote, hstart, -⟩ := s.exists_cons_chars
  rw [heq]
  rw [hchars, List.cons_append] at heq
  obtain ⟨rfl, -⟩ := List.cons.inj heq
  rw [readLexeme, if_neg (by simp [hdigit]), if_neg hquote, if_neg (by simp [hstart])]

theorem readNumber_whole {whole rest : List Char} (hwhole : ∀ c ∈ whole, c.isDigit = true)
    (hstop : Stops Char.isDigit rest) (hdot : Stops (· == '.') rest) :
    readNumber (whole ++ rest) = .token (.number (Decimal.read whole [])) whole rest := by
  unfold readNumber
  rw [hstop.takeWhile_append hwhole, hstop.dropWhile_append hwhole]
  dsimp only
  split
  · next after =>
    have := Text.stops_cons.mp hdot
    simp at this
  · rfl

theorem readNumber_decimal {whole fraction rest : List Char}
    (hwhole : ∀ c ∈ whole, c.isDigit = true) (hfraction : ∀ c ∈ fraction, c.isDigit = true)
    (hstop : Stops Char.isDigit rest) :
    readNumber (whole ++ '.' :: (fraction ++ rest)) =
      .token (.number (Decimal.read whole fraction)) (whole ++ '.' :: fraction) rest := by
  have hdot : Stops Char.isDigit ('.' :: (fraction ++ rest)) := Text.stops_cons.mpr (by decide)
  unfold readNumber
  simp only [hdot.takeWhile_append hwhole, hdot.dropWhile_append hwhole]
  rw [hstop.takeWhile_append hfraction, hstop.dropWhile_append hfraction]

theorem readText_quoted {contents rest : List Char} (h : '"' ∉ contents) :
    readText (contents ++ '"' :: rest) =
      .token (.text (String.ofList contents)) ('"' :: (contents ++ ['"'])) rest := by
  have hall := Text.forall_bne h
  have hstop : Stops (· != '"') ('"' :: rest) := Text.stops_cons.mpr (by decide)
  unfold readText
  rw [hstop.takeWhile_append hall, hstop.dropWhile_append hall]
  rfl

theorem readWord_keyword {table : Table} {c : Char} {cs rest : List Char} {role : Role}
    (hcs : ∀ d ∈ cs, Text.isWordPart d = true) (hstop : Stops Text.isWordPart rest)
    (hl : table.lookup (String.ofList (c :: cs)) = some role) :
    readWord table c (cs ++ rest) = .token (.keyword role) (c :: cs) rest := by
  simp only [readWord, hstop.takeWhile_append hcs, hstop.dropWhile_append hcs, hl]

theorem readWord_name {table : Table} {c : Char} {cs rest : List Char}
    (hcs : ∀ d ∈ cs, Text.isWordPart d = true) (hstop : Stops Text.isWordPart rest)
    (hl : table.lookup (String.ofList (c :: cs)) = none) :
    readWord table c (cs ++ rest) = .token (.word (String.ofList (c :: cs))) (c :: cs) rest := by
  simp only [readWord, hstop.takeWhile_append hcs, hstop.dropWhile_append hcs, hl]

/-- A complete lexeme is read as what it spells. -/
theorem readLexeme_of_spells {table : Table} {kind : Kind} {text rest : List Char} {c : Char}
    {cs : List Char} (h : Spells table kind text) (hcomplete : Complete kind text rest)
    (heq : text ++ rest = c :: cs) : readLexeme table c cs = .token kind text rest := by
  cases h with
  | keyword hword hl =>
    obtain ⟨d, ds, rfl, hstart, hparts⟩ := exists_cons_of_isWordChars hword
    rw [List.cons_append] at heq
    obtain ⟨rfl, rfl⟩ := List.cons.inj heq
    rw [readLexeme_of_isWordStart hstart, readWord_keyword hparts hcomplete hl]
  | word hword hl =>
    obtain ⟨d, ds, rfl, hstart, hparts⟩ := exists_cons_of_isWordChars hword
    rw [List.cons_append] at heq
    obtain ⟨rfl, rfl⟩ := List.cons.inj heq
    rw [readLexeme_of_isWordStart hstart, readWord_name hparts hcomplete hl]
  | whole hwhole =>
    obtain ⟨d, ds, rfl, hdigit⟩ := hwhole.exists_cons
    obtain ⟨rfl, -⟩ := List.cons.inj heq
    rw [readLexeme_of_isDigit hdigit, ← heq, readNumber_whole hwhole.2 hcomplete.1]
    exact hcomplete.2 (dot_not_mem_of_digits hwhole.2)
  | @decimal whole fraction hwhole hfraction =>
    obtain ⟨d, ds, rfl, hdigit⟩ := hwhole.exists_cons
    obtain ⟨rfl, -⟩ := List.cons.inj heq
    rw [readLexeme_of_isDigit hdigit, ← heq, ← readNumber_decimal hwhole.2 hfraction hcomplete.1]
    simp
  | text hquote =>
    rw [List.cons_append, List.append_assoc] at heq
    obtain ⟨rfl, rfl⟩ := List.cons.inj heq
    exact readText_quoted hquote
  | symbol s =>
    rw [readLexeme_symbol heq, readSymbol, Symbol.atStart?_of_longest hcomplete.1]
    simp

/-- A lexeme starts with no blank, and with a slash only if it is one. -/
theorem Spells.exists_cons {table : Table} {kind : Kind} {text : List Char}
    (h : Spells table kind text) : ∃ c cs, text = c :: cs ∧ Text.isBlank c = false ∧
      (c = '/' → kind = .symbol .slash ∧ cs = []) := by
  have hword : ∀ c, Text.isWordStart c = true → c ≠ '/' := by
    rintro _ h rfl
    revert h
    decide
  have hnumber : ∀ c : Char, c.isDigit = true → Text.isBlank c = false ∧ c ≠ '/' := by
    intro c hc
    constructor
    · exact Text.eq_false_of_toNat_mem (by decide +kernel) (Text.toNat_mem_range_of_isDigit hc)
    · rintro rfl
      revert hc
      decide
  cases h with
  | keyword hchars _ =>
    obtain ⟨c, cs, rfl, hstart, -⟩ := exists_cons_of_isWordChars hchars
    exact ⟨c, cs, rfl, Text.isBlank_of_isWordStart hstart, fun hc => absurd hc (hword c hstart)⟩
  | word hchars _ =>
    obtain ⟨c, cs, rfl, hstart, -⟩ := exists_cons_of_isWordChars hchars
    exact ⟨c, cs, rfl, Text.isBlank_of_isWordStart hstart, fun hc => absurd hc (hword c hstart)⟩
  | whole hwhole =>
    obtain ⟨d, ds, rfl, hdigit⟩ := hwhole.exists_cons
    exact ⟨d, ds, rfl, (hnumber d hdigit).1, fun hd => absurd hd (hnumber d hdigit).2⟩
  | decimal hwhole _ =>
    obtain ⟨d, ds, rfl, hdigit⟩ := hwhole.exists_cons
    exact ⟨d, _, rfl, (hnumber d hdigit).1, fun hd => absurd hd (hnumber d hdigit).2⟩
  | text _ => exact ⟨'"', _, rfl, by decide, nofun⟩
  | symbol s =>
    obtain ⟨c, cs, hchars, -, -, -, hblank, hslash⟩ := s.exists_cons_chars
    refine ⟨c, cs, hchars, hblank, fun hc => ?_⟩
    obtain ⟨rfl, rfl⟩ := hslash hc
    exact ⟨rfl, rfl⟩

/-- A complete lexeme starts no trivia. -/
theorem Spells.startsTrivia {table : Table} {kind : Kind} {text rest : List Char}
    (h : Spells table kind text) (hcomplete : Complete kind text rest) :
    Lexer.startsTrivia (text ++ rest) = false := by
  obtain ⟨c, cs, rfl, hblank, hslash⟩ := h.exists_cons
  by_cases hc : c = '/'
  · obtain ⟨rfl, rfl⟩ := hslash hc
    have hstop := hcomplete.2 rfl
    cases rest with
    | nil => simp [Lexer.startsTrivia, hblank]
    | cons d rest => simpa [Lexer.startsTrivia, hblank] using fun _ => Text.stops_cons.mp hstop
  · simp [Lexer.startsTrivia, hblank, hc]

end Lexer

end Respell
