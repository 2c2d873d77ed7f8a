-- SUMMARY: The lexer fails at the first character or quote that it cannot read, and nowhere else.
import Respell.Proofs.Lexing.Seams

/-!
# Faults

A scan takes any text to its end: what is no token is a character that starts no lexeme, or a quote
that is left open (`exists_scanned`). The first of these is the error that the lexer answers. It is
described here by the text before it, which has tokens by itself and leaves neither a comment nor a
lexeme open (`Settled`, `Extends`). So nothing inside a text in quotes or a comment is a fault, and
what stands behind the first fault plays no part.
-/

namespace Respell

/-! ## Reading numbers -/

/-- The number that a text is the numeral of, if it is one: digits with at most one point, and at
    least one digit. -/
def Decimal.ofText? (cs : List Char) : Option Float :=
  let whole := cs.takeWhile Char.isDigit
  match cs.dropWhile Char.isDigit with
  | [] => if whole = [] then none else some (read whole [])
  | c :: fraction =>
    if c = '.' ∧ fraction.all Char.isDigit = true ∧ whole ++ fraction ≠ [] then
      some (read whole fraction)
    else none

namespace Symbol

/-- Only `=` makes a symbol longer that is one already. -/
theorem eq_equals_of_longer {s t : Symbol} {c : Char} {rest : List Char}
    (ht : t.chars <+: s.chars ++ c :: rest) (hlt : s.chars.length < t.chars.length) : c = '=' := by
  have hall : (all.all fun s => all.all fun t =>
      t.chars.dropLast != s.chars || t.chars.getLast? == some '=') = true := by
    decide
  obtain ⟨more, hmore⟩ := List.prefix_of_prefix_length_le (List.prefix_append s.chars _) ht
    (Nat.le_of_lt hlt)
  have hs := List.length_pos_iff.mpr s.chars_ne_nil
  have hlength := t.length_chars_le
  rw [← hmore, List.length_append] at hlt hlength
  obtain ⟨d, rfl⟩ := List.length_eq_one_iff.mp (show more.length = 1 by omega)
  rw [← hmore, List.prefix_append_right_inj] at ht
  obtain rfl : d = c := by simpa using ht
  have hst := List.all_eq_true.mp (List.all_eq_true.mp hall s s.mem_all) t t.mem_all
  simpa [← hmore] using hst

end Symbol

namespace Lexer

open Text (Stops size)

/-- Every text that spells a number is the numeral of one. -/
theorem Spells.ofText? {table : Table} {x : Float} {text : List Char}
    (h : Spells table (.number x) text) : Decimal.ofText? text = some x := by
  cases h with
  | whole hwhole =>
    have hnil := Text.stops_nil Char.isDigit
    have htake := hnil.takeWhile_append hwhole.2
    have hdrop := hnil.dropWhile_append hwhole.2
    rw [List.append_nil] at htake hdrop
    rw [Decimal.ofText?, htake, hdrop]
    exact if_neg hwhole.1
  | @decimal whole fraction hwhole hfraction =>
    have hstop : Stops Char.isDigit ('.' :: fraction) := Text.stops_cons.mpr (by decide)
    rw [Decimal.ofText?, hstop.takeWhile_append hwhole.2, hstop.dropWhile_append hwhole.2]
    exact if_pos ⟨rfl, List.all_eq_true.mpr hfraction, by simp [hwhole.1]⟩

/-! ## What cannot be read -/

/-- The character, before `rest`, starts neither trivia nor a lexeme. A character of a symbol that
    takes two is among them where the other is missing. -/
structure Unreadable (c : Char) (rest : List Char) : Prop where
  not_blank : Text.isBlank c = false
  not_digit : c.isDigit = false
  not_quote : c ≠ '"'
  not_word : Text.isWordStart c = false
  no_symbol : ∀ s : Symbol, ¬ s.chars <+: c :: rest

theorem readLexeme_eq_unknown {table : Table} {c : Char} {rest : List Char}
    (h : readLexeme table c rest = .unknown) : c.isDigit = false ∧ c ≠ '"' ∧
      Text.isWordStart c = false ∧ ∀ s : Symbol, ¬ s.chars <+: c :: rest := by
  unfold readLexeme at h
  split at h
  · unfold readNumber at h
    dsimp only at h
    split at h <;> cases h
  · next hdigit =>
    split at h
    · unfold readText at h
      dsimp only at h
      split at h <;> cases h
    · next hquote =>
      split at h
      · cases h
      · next hword =>
        refine ⟨Bool.not_eq_true _ ▸ hdigit, hquote, Bool.not_eq_true _ ▸ hword, fun s hs => ?_⟩
        unfold readSymbol at h
        cases hsymbol : Symbol.atStart? (c :: rest) with
        | some t =>
          rw [hsymbol] at h
          cases h
        | none =>
          have := List.find?_eq_none.mp hsymbol s s.mem_all
          exact this (List.isPrefixOf_iff_prefix.mpr hs)

theorem Unreadable.readLexeme {c : Char} {rest : List Char} (h : Unreadable c rest)
    (table : Table) : readLexeme table c rest = .unknown := by
  have hsymbol : Symbol.atStart? (c :: rest) = none := by
    refine List.find?_eq_none.mpr fun s _ hs => h.no_symbol s ?_
    exact List.isPrefixOf_iff_prefix.mp hs
  rw [Lexer.readLexeme, if_neg (by simp [h.not_digit]), if_neg h.not_quote,
    if_neg (by simp [h.not_word]), readSymbol, hsymbol]

theorem readLexeme_eq_unterminated {table : Table} {c : Char} {rest : List Char}
    (h : readLexeme table c rest = .unterminated) : c = '"' ∧ '"' ∉ rest := by
  unfold readLexeme at h
  split at h
  · unfold readNumber at h
    dsimp only at h
    split at h <;> cases h
  · split at h
    · next hquote =>
      refine ⟨hquote, fun hmem => ?_⟩
      unfold readText at h
      dsimp only at h
      split at h
      · next hnil =>
        have := List.dropWhile_eq_nil_iff.mp hnil '"' hmem
        simp at this
      · cases h
    · split at h
      · cases h
      · unfold readSymbol at h
        split at h <;> cases h

theorem readLexeme_of_open {table : Table} {rest : List Char} (h : '"' ∉ rest) :
    readLexeme table '"' rest = .unterminated := by
  have hnil : rest.dropWhile (· != '"') = [] :=
    List.dropWhile_eq_nil_iff.mpr (Text.forall_bne h)
  rw [readLexeme, if_neg (by decide), if_pos rfl, readText, hnil]

/-- The error about the character `c` at the given offset, before `rest`. -/
inductive Fault (c : Char) (rest : List Char) (offset : Nat) : LexError → Prop where
  | invalid : Unreadable c rest →
      Fault c rest offset (.invalidCharacter c ⟨offset, offset + c.utf8Size⟩)
  | unterminated : c = '"' → '"' ∉ rest →
      Fault c rest offset (.unterminatedString ⟨offset, offset + 1⟩)

namespace Fault

variable {c : Char} {rest : List Char} {offset : Nat} {err : LexError}

theorem span_eq (h : Fault c rest offset err) : err.span = ⟨offset, offset + c.utf8Size⟩ := by
  cases h with
  | invalid _ => rfl
  | unterminated hc _ => rw [hc]; rfl

theorem ne_of_symbol (h : Fault c rest offset err) {s : Symbol} {d : Char} (hs : s.chars = [d])
    (hd : d ≠ '"') : c ≠ d := by
  rintro rfl
  cases h with
  | invalid h => exact h.no_symbol s (by simp [hs])
  | unterminated hc _ => exact hd hc

theorem isDigit (h : Fault c rest offset err) : c.isDigit = false := by
  cases h with
  | invalid h => exact h.not_digit
  | unterminated hc _ => rw [hc]; decide

theorem startsTrivia (h : Fault c rest offset err) : startsTrivia (c :: rest) = false := by
  have hslash : c ≠ '/' := h.ne_of_symbol (s := .slash) rfl (by decide)
  have hblank : Text.isBlank c = false := by
    cases h with
    | invalid h => exact h.not_blank
    | unterminated hc _ => rw [hc]; decide
  simp [Lexer.startsTrivia, hblank, hslash]

theorem tokensFrom (h : Fault c rest offset err) (table : Table) :
    tokensFrom table offset (c :: rest) = .error err := by
  rw [Lexer.tokensFrom, skipTrivia_of_startsTrivia h.startsTrivia]
  cases h with
  | invalid h => exact scan_of_unknown (h.readLexeme table)
  | unterminated hc hrest =>
    subst hc
    exact scan_of_unterminated (readLexeme_of_open hrest)

end Fault

/-- What the lexer does at a character that starts no trivia: it reads a lexeme and goes on, or it
    fails there. -/
theorem tokensFrom_cases (table : Table) (offset : Nat) {c : Char} {cs : List Char}
    (h : startsTrivia (c :: cs) = false) :
    (∃ kind text rest, c :: cs = text ++ rest ∧ Spells table kind text ∧
      Complete kind text rest ∧ rest.length ≤ cs.length) ∨ ∃ err, Fault c cs offset err := by
  cases hlexeme : readLexeme table c cs with
  | token kind text rest =>
    obtain ⟨hspells, hcomplete⟩ := readLexeme_spells h hlexeme
    have hlength := length_rest_lt hlexeme
    exact .inl ⟨kind, text, rest, (readLexeme_append hlexeme).symm, hspells, hcomplete,
      Nat.le_of_lt_succ hlength⟩
  | unknown =>
    obtain ⟨hdigit, hquote, hword, hsymbol⟩ := readLexeme_eq_unknown hlexeme
    simp only [startsTrivia, Bool.or_eq_false_iff] at h
    exact .inr ⟨_, .invalid ⟨h.1, hdigit, hquote, hword, hsymbol⟩⟩
  | unterminated =>
    obtain ⟨hquote, hrest⟩ := readLexeme_eq_unterminated hlexeme
    exact .inr ⟨_, .unterminated hquote hrest⟩

/-! ## Scans -/

/-- What a scan finds: a token, or what is none. -/
inductive Find where
  | token (kind : Kind)
  | unterminated
  | unknown (char : Char)

/-- All that a scan finds in the text, which starts at the given offset, up to its end: a quote that
    is left open takes the rest of the text, and behind a character that starts no lexeme the scan
    goes on. -/
inductive Scanned (table : Table) : Nat → List Char → List (Find × Span) → Prop where
  | eof {offset : Nat} {gap : List Char} : Trivia [] gap → Scanned table offset gap []
  | token {offset : Nat} {gap text rest : List Char} {kind : Kind} {finds : List (Find × Span)} :
      Filler gap → Spells table kind text → Complete kind text rest →
      Scanned table (offset + size gap + size text) rest finds →
      Scanned table offset (gap ++ (text ++ rest))
        ((.token kind, ⟨offset + size gap, offset + size gap + size text⟩) :: finds)
  | unterminated {offset : Nat} {gap rest : List Char} : Filler gap → '"' ∉ rest →
      Scanned table offset (gap ++ '"' :: rest)
        [(.unterminated, ⟨offset + size gap, offset + size gap + size ('"' :: rest)⟩)]
  | unknown {offset : Nat} {gap rest : List Char} {c : Char} {finds : List (Find × Span)} :
      Filler gap → Unreadable c rest →
      Scanned table (offset + size gap + c.utf8Size) rest finds →
      Scanned table offset (gap ++ c :: rest)
        ((.unknown c, ⟨offset + size gap, offset + size gap + c.utf8Size⟩) :: finds)

/-- The tokens of a scan, or the error for the first find that is none; `stop` is the end of the
    input. -/
def verdict (stop : Nat) : List (Find × Span) → Except LexError (List Token)
  | [] => .ok [⟨.eof, ⟨stop, stop⟩⟩]
  | (.token kind, span) :: finds => (verdict stop finds).map (⟨kind, span⟩ :: ·)
  | (.unterminated, span) :: _ => .error (.unterminatedString ⟨span.start, span.start + 1⟩)
  | (.unknown c, span) :: _ => .error (.invalidCharacter c span)

/-- Every text can be scanned to its end. -/
theorem exists_scanned (table : Table) (cs : List Char) (offset : Nat) :
    ∃ finds, Scanned table offset cs finds := by
  obtain ⟨gap, rest, rfl, htrivia, hstop, -⟩ := exists_skipTrivia cs offset
  cases rest with
  | nil => exact ⟨[], by simpa using .eof htrivia⟩
  | cons c rest =>
    have hgap := htrivia.filler (by simp) hstop
    obtain ⟨kind, text, after, hsplit, hspells, hcomplete, hlength⟩ | ⟨err, hfault⟩ :=
      tokensFrom_cases table (offset + size gap) hstop
    · have hshorter : after.length < (gap ++ c :: rest).length := by
        simp only [List.length_append, List.length_cons]
        omega
      obtain ⟨finds, hfinds⟩ := exists_scanned table after (offset + size gap + size text)
      rw [hsplit]
      exact ⟨_, .token hgap hspells hcomplete hfinds⟩
    · cases hfault with
      | invalid h =>
        have hshorter : rest.length < (gap ++ c :: rest).length := by
          simp only [List.length_append, List.length_cons]
          omega
        obtain ⟨finds, hfinds⟩ := exists_scanned table rest (offset + size gap + c.utf8Size)
        exact ⟨_, .unknown hgap h hfinds⟩
      | unterminated hc hrest =>
        subst hc
        exact ⟨_, .unterminated hgap hrest⟩
termination_by cs.length

/-- The lexer answers the verdict on the scan. -/
theorem Scanned.tokensFrom_eq {table : Table} {offset : Nat} {cs : List Char}
    {finds : List (Find × Span)} (h : Scanned table offset cs finds) :
    tokensFrom table offset cs = verdict (offset + size cs) finds := by
  induction h with
  | eof htrivia => exact (Tiling.eof htrivia).tokensFrom_eq
  | token hgap hspells hcomplete _ ih =>
    rw [hgap.tokensFrom_append, hspells.tokensFrom_append hcomplete, ih, verdict]
    simp only [Text.size_append, Nat.add_assoc]
  | unterminated hgap hrest =>
    rw [hgap.tokensFrom_append, (Fault.unterminated rfl hrest).tokensFrom]
    rfl
  | unknown hgap h _ _ =>
    rw [hgap.tokensFrom_append, (Fault.invalid h).tokensFrom]
    rfl

/-! ## The first fault -/

/-- An error is about a character that tokens and trivia without an open comment lead up to. -/
theorem Scanned.exists_fault {table : Table} {offset stop : Nat} {cs : List Char}
    {finds : List (Find × Span)} (h : Scanned table offset cs finds) {err : LexError}
    (herr : verdict stop finds = .error err) : ∃ front gap c rest body,
      cs = front ++ (gap ++ c :: rest) ∧ Front table (gap ++ c :: rest) offset front body ∧
        Filler gap ∧ Fault c rest (offset + size (front ++ gap)) err := by
  induction h with
  | eof _ => cases herr
  | @token offset gap text rest kind finds hgap hspells hcomplete _ ih =>
    rw [verdict] at herr
    cases hrest : verdict stop finds with
    | ok tokens =>
      rw [hrest] at herr
      cases herr
    | error err' =>
      rw [hrest] at herr
      cases herr
      obtain ⟨front, gap', c, after, body, rfl, hfront, hgap', hfault⟩ := ih hrest
      refine ⟨_, gap', c, after, _, ?_, .token hgap hspells hcomplete hfront, hgap', ?_⟩
      · simp only [List.append_assoc]
      · simpa only [Text.size_append, Nat.add_assoc] using hfault
  | @unterminated offset gap rest hgap hrest =>
    cases herr
    exact ⟨[], gap, '"', rest, [], rfl, .nil, hgap, .unterminated rfl hrest⟩
  | @unknown offset gap rest c finds hgap h _ _ =>
    cases herr
    exact ⟨[], gap, c, rest, [], rfl, .nil, hgap, .invalid h⟩

/-! ## The text before a fault -/

/-- A character that starts no lexeme may still go on with one: with a word, or with a number that
    has no point yet. -/
def Continues (c : Char) (kind : Kind) (text : List Char) : Prop :=
  match kind with
  | .keyword _ => Text.isWordPart c = true
  | .word _ => Text.isWordPart c = true
  | .number _ => c = '.' ∧ '.' ∉ text
  | _ => False

/-- The character goes on with the token that the text ends with. -/
def Extends (c : Char) (cs : List Char) (tokens : List Token) : Prop :=
  ∃ t before text, tokens.dropLast.getLast? = some t ∧ Slice cs t.span before text [] ∧
    Continues c t.kind text

/-- The text has these tokens and does not end inside a comment: behind the last token stand blanks,
    and comments with the end of their line. -/
structure Settled (table : Table) (source : String) (tokens : List Token) : Prop where
  lexed : tokenize table source = .ok tokens
  closed : ∃ front gap, source.toList = front ++ gap ∧
    size front = (tokens.dropLast.getLast?.elim 0 fun t => t.span.stop) ∧ Filler gap

theorem Complete.not_continues {kind : Kind} {text rest : List Char} {c : Char}
    (h : Complete kind text (c :: rest)) : ¬ Continues c kind text := by
  intro hc
  cases kind with
  | keyword role => exact Bool.false_ne_true ((Text.stops_cons.mp h).symm.trans hc)
  | word name => exact Bool.false_ne_true ((Text.stops_cons.mp h).symm.trans hc)
  | number x =>
    have hstop := Text.stops_cons.mp (h.2 hc.2)
    simp [hc.1] at hstop
  | _ => exact hc

/-- A lexeme that a fault does not go on with is complete before it. -/
theorem Fault.complete {c : Char} {rest : List Char} {offset : Nat} {err : LexError}
    (h : Fault c rest offset err) {table : Table} {kind : Kind} {text : List Char}
    (hspells : Spells table kind text) (hc : ¬ Continues c kind text) :
    Complete kind text (c :: rest) := by
  cases hspells with
  | keyword _ _ => exact Text.stops_cons.mpr (Bool.not_eq_true _ ▸ hc)
  | word _ _ => exact Text.stops_cons.mpr (Bool.not_eq_true _ ▸ hc)
  | whole _ =>
    refine ⟨Text.stops_cons.mpr h.isDigit, fun hdot => Text.stops_cons.mpr ?_⟩
    exact beq_eq_false_iff_ne.mpr fun hpoint => hc ⟨hpoint, hdot⟩
  | decimal _ _ =>
    refine ⟨Text.stops_cons.mpr h.isDigit, fun hdot => Text.stops_cons.mpr ?_⟩
    exact beq_eq_false_iff_ne.mpr fun hpoint => hc ⟨hpoint, hdot⟩
  | text _ => trivial
  | symbol s =>
    have hslash : c ≠ '/' := h.ne_of_symbol (s := .slash) rfl (by decide)
    refine ⟨fun t ht => ?_, fun _ => Text.stops_cons.mpr (beq_eq_false_iff_ne.mpr hslash)⟩
    by_contra hlt
    have hassign : c ≠ '=' := h.ne_of_symbol (s := .assign) rfl (by decide)
    exact hassign (Symbol.eq_equals_of_longer ht (by omega))

/-- The last token at the front of a text ends it, and is complete before what follows. -/
theorem Front.last {table : Table} {after : List Char} {offset : Nat} {cs : List Char}
    {tokens : List Token} (h : Front table after offset cs tokens) {t : Token}
    (ht : tokens.getLast? = some t) : ∃ before text, cs = before ++ text ∧
      t.span = ⟨offset + size before, offset + size cs⟩ ∧ Complete t.kind text after := by
  induction h with
  | nil => cases ht
  | @token offset gap text rest kind tokens _ _ hcomplete hrest ih =>
    cases hrest with
    | nil =>
      cases ht
      exact ⟨gap, text, by simp, by simp [Nat.add_assoc], hcomplete⟩
    | @token _ gap' text' rest' kind' tokens' _ _ _ _ =>
      obtain ⟨before, last, hsplit, hspan, hlast⟩ := ih (by simpa using ht)
      refine ⟨gap ++ (text ++ before), last, by simp [hsplit], ?_, hlast⟩
      simpa only [Text.size_append, Nat.add_assoc] using hspan

theorem Front.stop_eq {table : Table} {after : List Char} {cs : List Char} {tokens : List Token}
    (h : Front table after 0 cs tokens) :
    size cs = tokens.getLast?.elim 0 fun t => t.span.stop := by
  cases ht : tokens.getLast? with
  | none =>
    rw [List.getLast?_eq_none_iff.mp ht] at h
    cases h
    rfl
  | some t =>
    obtain ⟨before, text, -, hspan, -⟩ := h.last ht
    simp [hspan]

/-! ## Errors and faults -/

/-- What leads up to a fault is settled, and the fault goes on with none of its tokens. -/
theorem Front.settled {table : Table} {front gap rest : List Char} {c : Char} {body : List Token}
    (h : Front table (gap ++ c :: rest) 0 front body) (hgap : Filler gap) :
    ∃ tokens, Settled table (String.ofList (front ++ gap)) tokens ∧
      ¬ Extends c (front ++ gap) tokens := by
  have hcut : Front table gap 0 front body :=
    h.follow fun _ _ _ _ _ _ _ hcomplete => hcomplete.cut
  refine ⟨body ++ [⟨.eof, ⟨0 + size (front ++ gap), 0 + size (front ++ gap)⟩⟩],
    ⟨?_, front, gap, by simp, ?_, hgap⟩, ?_⟩
  · rw [tokenize_eq, String.toList_ofList]
    exact hcut.tokensFrom_filler hgap
  · rw [List.dropLast_concat]
    exact h.stop_eq
  · rintro ⟨t, before, text, ht, hslice, hcontinues⟩
    rw [List.dropLast_concat] at ht
    obtain ⟨before', text', rfl, hspan, hcomplete⟩ := h.last ht
    -- The token ends the text, so no gap follows it.
    have hsource := hslice.source_eq
    have hstop := hslice.stop_eq
    have hstart := hslice.start_eq
    rw [List.append_nil, ← List.append_nil (before ++ text)] at hsource
    obtain ⟨hfront, rfl⟩ := Text.append_inj_of_size hsource (by rw [hspan] at hstop; simp_all)
    obtain ⟨rfl, rfl⟩ := Text.append_inj_of_size hfront (by rw [hspan] at hstart; simp_all)
    exact hcomplete.not_continues hcontinues

/-- The lexer gets to a fault that settled text leads up to. -/
theorem Settled.front {table : Table} {p : String} {tokens : List Token}
    (h : Settled table p tokens) {c : Char} {rest : List Char} {err : LexError}
    (hextends : ¬ Extends c p.toList tokens) (hfault : Fault c rest p.utf8ByteSize err) :
    ∃ front gap body, p.toList = front ++ gap ∧ Filler gap ∧
      Front table (gap ++ c :: rest) 0 front body := by
  obtain ⟨front, gap, body, hp, hfront, -, rfl⟩ := (tokenize_eq_ok_iff.mp h.lexed).exists_front
  obtain ⟨front', gap', hp', hsize, hgap⟩ := h.closed
  rw [List.dropLast_concat] at hsize
  obtain ⟨rfl, rfl⟩ := Text.append_inj_of_size (hp'.symm.trans hp) (hsize.trans hfront.stop_eq.symm)
  refine ⟨front', gap', body, hp, hgap, hfront.follow fun before text t hsplit ht hspan hspells
    hcomplete => ?_⟩
  by_cases hnil : gap' = []
  · subst hnil
    refine hfault.complete hspells fun hc => hextends ⟨t, before, text, ?_, ⟨?_, ?_, ?_⟩, hc⟩
    · rw [List.dropLast_concat]
      exact ht
    · simp [hp, hsplit]
    · simp [hspan]
    · simp [hspan, hsplit]
  · exact hcomplete.append hnil _

theorem tokenize_eq_error_iff {table : Table} {source : String} {err : LexError} :
    tokenize table source = .error err ↔ ∃ p : String, ∃ c rest tokens,
      source.toList = p.toList ++ c :: rest ∧ Settled table p tokens ∧
        ¬ Extends c p.toList tokens ∧ Fault c rest p.utf8ByteSize err := by
  rw [tokenize_eq]
  constructor
  · intro h
    obtain ⟨finds, hfinds⟩ := exists_scanned table source.toList 0
    rw [hfinds.tokensFrom_eq] at h
    obtain ⟨front, gap, c, rest, body, hsource, hfront, hgap, hfault⟩ := hfinds.exists_fault h
    obtain ⟨tokens, hsettled, hextends⟩ := hfront.settled hgap
    refine ⟨.ofList (front ++ gap), c, rest, tokens, ?_, hsettled, ?_, ?_⟩
    · simp [hsource]
    · rwa [String.toList_ofList]
    · rwa [← Text.size_toList, String.toList_ofList, ← Nat.zero_add (size _)]
  · rintro ⟨p, c, rest, tokens, hsource, hsettled, hextends, hfault⟩
    obtain ⟨front, gap, body, hp, hgap, hfront⟩ := hsettled.front hextends hfault
    have hsize : p.utf8ByteSize = 0 + size front + size gap := by
      rw [← Text.size_toList, hp, Text.size_append, Nat.zero_add]
    rw [hsize] at hfault
    rw [hsource, hp, List.append_assoc, hfront.tokensFrom_append, hgap.tokensFrom_append,
      hfault.tokensFrom]
    rfl

/-! ## The two errors -/

/-- The character at the span is the first that cannot be read. -/
def InvalidAt (table : Table) (source : String) (c : Char) (span : Span) : Prop :=
  ∃ p : String, ∃ rest tokens, source.toList = p.toList ++ c :: rest ∧
    span = ⟨p.utf8ByteSize, p.utf8ByteSize + c.utf8Size⟩ ∧ Settled table p tokens ∧
      ¬ Extends c p.toList tokens ∧ Unreadable c rest

/-- At the span stands a quote that opens a text, and no further quote closes it. -/
def OpenAt (table : Table) (source : String) (span : Span) : Prop :=
  ∃ p : String, ∃ rest tokens, source.toList = p.toList ++ '"' :: rest ∧
    span = ⟨p.utf8ByteSize, p.utf8ByteSize + 1⟩ ∧ Settled table p tokens ∧ '"' ∉ rest

/-- A quote goes on with no lexeme. -/
theorem not_extends_quote (cs : List Char) (tokens : List Token) : ¬ Extends '"' cs tokens := by
  rintro ⟨t, before, text, -, -, h⟩
  have hquote : Text.isWordPart '"' = false := by decide
  cases hk : t.kind with
  | keyword role =>
    rw [hk] at h
    exact Bool.false_ne_true (hquote.symm.trans h)
  | word name =>
    rw [hk] at h
    exact Bool.false_ne_true (hquote.symm.trans h)
  | number x =>
    rw [hk] at h
    exact absurd h.1 (by decide)
  | _ =>
    rw [hk] at h
    exact h

/-- When the lexer fails, and with what. -/
structure FaultsExact (table : Table) (source : String) : Prop where
  invalid_iff : ∀ c span, tokenize table source = .error (.invalidCharacter c span) ↔
    InvalidAt table source c span
  open_iff : ∀ span, tokenize table source = .error (.unterminatedString span) ↔
    OpenAt table source span
  /-- there are no other errors -/
  otherwise : (∀ c span, ¬ InvalidAt table source c span) → (∀ span, ¬ OpenAt table source span) →
    ∃ tokens, tokenize table source = .ok tokens
  /-- the scan takes the whole source, and the error is its first find that is no token -/
  scanned : ∃ finds, Scanned table 0 source.toList finds ∧
    tokenize table source = verdict source.utf8ByteSize finds
  /-- the text of every number is the numeral of that number -/
  numbers : ∀ tokens, tokenize table source = .ok tokens → ∀ t ∈ tokens, ∀ x, t.kind = .number x →
    ∃ before text after, Slice source.toList t.span before text after ∧
      Decimal.ofText? text = some x

end Lexer

open Lexer in
/-- The lexer fails at the first fault of the source, and only there. -/
theorem tokenize_faults_exact (table : Table) (source : String) : FaultsExact table source := by
  have hinvalid : ∀ c span, tokenize table source = .error (.invalidCharacter c span) ↔
      InvalidAt table source c span := by
    intro c span
    rw [tokenize_eq_error_iff]
    constructor
    · rintro ⟨p, _, rest, tokens, hsource, hsettled, hextends, hfault⟩
      cases hfault with
      | invalid h => exact ⟨p, rest, tokens, hsource, rfl, hsettled, hextends, h⟩
    · rintro ⟨p, rest, tokens, hsource, rfl, hsettled, hextends, h⟩
      exact ⟨p, c, rest, tokens, hsource, hsettled, hextends, .invalid h⟩
  have hopen : ∀ span, tokenize table source = .error (.unterminatedString span) ↔
      OpenAt table source span := by
    intro span
    rw [tokenize_eq_error_iff]
    constructor
    · rintro ⟨p, _, rest, tokens, hsource, hsettled, -, hfault⟩
      cases hfault with
      | unterminated hc h =>
        subst hc
        exact ⟨p, rest, tokens, hsource, rfl, hsettled, h⟩
    · rintro ⟨p, rest, tokens, hsource, rfl, hsettled, h⟩
      exact ⟨p, '"', rest, tokens, hsource, hsettled, not_extends_quote _ _, .unterminated rfl h⟩
  refine ⟨hinvalid, hopen, fun hno hno' => ?_, ?_, fun tokens htokens t ht x hx => ?_⟩
  · cases hanswer : tokenize table source with
    | ok tokens => exact ⟨tokens, rfl⟩
    | error err =>
      cases err with
      | invalidCharacter c span => exact absurd ((hinvalid c span).mp hanswer) (hno c span)
      | unterminatedString span => exact absurd ((hopen span).mp hanswer) (hno' span)
  · obtain ⟨finds, hfinds⟩ := exists_scanned table source.toList 0
    refine ⟨finds, hfinds, ?_⟩
    rw [tokenize_eq, hfinds.tokensFrom_eq, Text.size_toList, Nat.zero_add]
  · have heof : t.kind ≠ .eof := by simp [hx]
    obtain ⟨before, text, after, hslice, hspells, -⟩ :=
      (tokenize_eq_ok_iff.mp htokens).slices [] rfl t ht heof
    rw [hx] at hspells
    exact ⟨before, text, after, hslice, hspells.ofText?⟩

end Respell
