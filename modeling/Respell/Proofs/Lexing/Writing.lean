-- SUMMARY: Writing lexemes down with separators between them, and reading them back.
import Mathlib.Data.List.Forall2
import Mathlib.Data.Set.Function
import Respell.Proofs.Lexing.Tiling

/-!
# Writing lexemes down

A `Spelling` is a lexeme as it is written. Spellings with separators between them are found again by
the lexer, one token for each at the place where it was written, whatever the separators are.

An `Item` is a lexeme before it is spelled: a keyword is known by its role, and everything else by
what it stands for. Items are written with the spellings of a configuration. The lexer then finds
the kind of every item in order, provided that the spellings can be told apart from one another and
from the names.
-/

namespace Respell

/-! ## Keyword spellings -/

/-- The spellings are words, and no two roles share one. -/
structure Config.Distinct (c : Config) : Prop where
  isWord : ∀ role, Text.isWord (c.spelling role) = true
  injective : ∀ {role role'}, c.spelling role = c.spelling role' → role = role'

namespace Table

theorem mem_entries_ofConfig {c : Config} {e : String × Role} :
    e ∈ (ofConfig c).entries ↔ c.spelling e.2 = e.1 := by
  simp only [ofConfig, List.mem_map, Role.mem_all, true_and]
  constructor
  · rintro ⟨role, rfl⟩
    rfl
  · exact fun h => ⟨e.2, Prod.ext h rfl⟩

/-- The spelling of a role is looked up as that role. -/
theorem lookup_spelling {c : Config} (hc : c.Distinct) (role : Role) :
    (ofConfig c).lookup (c.spelling role) = some role := by
  unfold lookup
  cases hfind : (ofConfig c).entries.reverse.find? fun e => e.1 == c.spelling role with
  | none =>
    have hmem : (c.spelling role, role) ∈ (ofConfig c).entries.reverse :=
      List.mem_reverse.mpr (mem_entries_ofConfig.mpr rfl)
    simpa using List.find?_eq_none.mp hfind _ hmem
  | some e =>
    have hmem := mem_entries_ofConfig.mp (List.mem_reverse.mp (List.mem_of_find?_eq_some hfind))
    have hword : e.1 = c.spelling role := by simpa using List.find?_some hfind
    rw [Option.map_some, hc.injective (hmem.trans hword)]

/-- A word that spells no role is not in the table. -/
theorem lookup_eq_none {c : Config} {word : String} (h : ∀ role, c.spelling role ≠ word) :
    (ofConfig c).lookup word = none := by
  rw [lookup, Option.map_eq_none_iff, List.find?_eq_none]
  intro e he
  have hmem := mem_entries_ofConfig.mp (List.mem_reverse.mp he)
  simpa using fun hword : e.1 = word => h e.2 (hmem.trans hword)

end Table

/-! ## Items -/

/-- A text with the shape of a word. -/
@[ext]
structure Word where
  text : String
  isWord : Text.isWord text = true

/-- The text of a number: digits, and after a point digits again if there are any. -/
structure Numeral where
  whole : List Char
  /-- what follows the point, if there is one -/
  fraction : Option (List Char)
  isDigits : Lexer.IsDigits whole
  isDigit : ∀ cs ∈ fraction, ∀ c ∈ cs, c.isDigit = true

/-- What can stand between quotes. -/
structure Quotable where
  contents : List Char
  no_quote : '"' ∉ contents

/-- A lexeme that is written down, before a table tells the keywords from the names. -/
inductive Spelling where
  | word (word : Word)
  | number (numeral : Numeral)
  | text (contents : Quotable)
  | symbol (symbol : Symbol)

/-- How a number is written. -/
def Numeral.chars (n : Numeral) : List Char :=
  match n.fraction with
  | some fraction => n.whole ++ '.' :: fraction
  | none => n.whole

namespace Spelling

/-- The text that is written. -/
def chars : Spelling → List Char
  | .word w => w.text.toList
  | .number n => n.chars
  | .text t => '"' :: (t.contents ++ ['"'])
  | .symbol s => s.chars

/-- The kind of token that it is: a word may be a keyword of the table. -/
def kind (table : Table) : Spelling → Kind
  | .word w => ((table.lookup w.text).map Kind.keyword).getD (.word w.text)
  | .number n => .number (Decimal.read n.whole (n.fraction.getD []))
  | .text t => .text (String.ofList t.contents)
  | .symbol s => .symbol s

theorem spells (table : Table) (s : Spelling) : Lexer.Spells table (s.kind table) s.chars := by
  cases s with
  | word w =>
    obtain ⟨text, hword⟩ := w
    have htext := String.ofList_toList (s := text)
    cases hl : table.lookup text with
    | some role =>
      simp only [kind, hl]
      have hlookup : table.lookup (String.ofList text.toList) = some role := by rw [htext, hl]
      exact .keyword hword hlookup
    | none =>
      simp only [kind, hl]
      have hspells : Lexer.Spells table _ _ := .word hword (by rw [htext, hl])
      rwa [htext] at hspells
  | number n =>
    obtain ⟨whole, fraction, hwhole, hfraction⟩ := n
    cases fraction with
    | none => exact .whole hwhole
    | some fraction => exact .decimal hwhole (hfraction fraction rfl)
  | text t => exact .text t.no_quote
  | symbol s => exact .symbol s

end Spelling

/-- A lexeme before it is spelled. -/
inductive Item where
  | keyword (role : Role)
  | word (word : Word)
  | number (numeral : Numeral)
  | text (contents : Quotable)
  | symbol (symbol : Symbol)

namespace Item

/-- How an item is written, given the spellings of the keywords. -/
def chars (c : Config) : Item → List Char
  | .keyword role => (c.spelling role).toList
  | .word w => w.text.toList
  | .number n => n.chars
  | .text t => '"' :: (t.contents ++ ['"'])
  | .symbol s => s.chars

/-- The kind of token that an item is. -/
def kind : Item → Kind
  | .keyword role => .keyword role
  | .word w => .word w.text
  | .number n => .number (Decimal.read n.whole (n.fraction.getD []))
  | .text t => .text (String.ofList t.contents)
  | .symbol s => .symbol s

/-- The item with another name, if it is one. -/
def rename (r : Word → Word) : Item → Item
  | .word w => .word (r w)
  | item => item

theorem spells {c : Config} (hc : c.Distinct) (item : Item)
    (hfree : ∀ w, item = .word w → ∀ role, c.spelling role ≠ w.text) :
    Lexer.Spells (.ofConfig c) item.kind (item.chars c) := by
  cases item with
  | keyword role =>
    have hspells := Spelling.spells (.ofConfig c) (.word ⟨c.spelling role, hc.isWord role⟩)
    rw [Spelling.kind, Table.lookup_spelling hc role] at hspells
    exact hspells
  | word w =>
    have hspells := Spelling.spells (.ofConfig c) (.word w)
    rw [Spelling.kind, Table.lookup_eq_none (hfree w rfl)] at hspells
    exact hspells
  | number n => exact Spelling.spells _ (.number n)
  | text t => exact Spelling.spells _ (.text t)
  | symbol s => exact Spelling.spells _ (.symbol s)

end Item

/-! ## Separators -/

theorem Symbol.isBlank_of_mem_chars {s : Symbol} {c : Char} (h : c ∈ s.chars) :
    Text.isBlank c = false := by
  have hall : s.chars.all (fun c => !Text.isBlank c) = true := by cases s <;> decide
  simpa using List.all_eq_true.mp hall c h

namespace Lexer

open Text (Stops size)

/-- Blanks, and comments with the end of their line. -/
inductive Filler : List Char → Prop where
  | nil : Filler []
  | blank {c : Char} {cs : List Char} : Text.isBlank c = true → Filler cs → Filler (c :: cs)
  | comment {body cs : List Char} : '\n' ∉ body → Filler cs →
      Filler ('/' :: '/' :: (body ++ '\n' :: cs))

/-- A blank, and after it blanks and comments. -/
def Separator (gap : List Char) : Prop :=
  ∃ c cs, gap = c :: cs ∧ Text.isBlank c = true ∧ Filler cs

/-- Texts in a row, with a separator after each; the last may go without. -/
inductive Joined : List (List Char) → List Char → Prop where
  | nil : Joined [] []
  | last (text : List Char) : Joined [text] text
  | cons {text gap source : List Char} {texts : List (List Char)} : Separator gap →
      Joined texts source → Joined (text :: texts) (text ++ (gap ++ source))

/-- Texts that are `Joined` from the given offset on, and the span of each. -/
inductive Placed : Nat → List (List Char) → List Char → List Span → Prop where
  | nil {offset : Nat} : Placed offset [] [] []
  | last {offset : Nat} (text : List Char) :
      Placed offset [text] text [⟨offset, offset + size text⟩]
  | cons {offset : Nat} {text gap source : List Char} {texts : List (List Char)}
      {spans : List Span} : Separator gap →
      Placed (offset + size text + size gap) texts source spans →
      Placed offset (text :: texts) (text ++ (gap ++ source))
        (⟨offset, offset + size text⟩ :: spans)

theorem Joined.exists_placed {texts : List (List Char)} {source : List Char}
    (h : Joined texts source) (offset : Nat) : ∃ spans, Placed offset texts source spans := by
  induction h generalizing offset with
  | nil => exact ⟨_, .nil⟩
  | last text => exact ⟨_, .last text⟩
  | @cons text gap source texts hgap _ ih =>
    obtain ⟨spans, hspans⟩ := ih (offset + size text + size gap)
    exact ⟨_, .cons hgap hspans⟩

theorem Filler.trivia {gap after cs : List Char} (h : Filler gap) (hcs : Trivia after cs) :
    Trivia after (gap ++ cs) := by
  induction h with
  | nil => exact hcs
  | blank hc _ ih => exact .blank hc ih
  | @comment body cs' hbody _ ih =>
    rw [List.cons_append, List.cons_append, List.append_assoc]
    exact .comment hbody (.inr ⟨_, rfl⟩) (.blank (by decide) ih)

theorem Separator.filler {gap : List Char} (h : Separator gap) : Filler gap := by
  obtain ⟨c, cs, rfl, hblank, hfiller⟩ := h
  exact .blank hblank hfiller

/-- What is put before the source goes to the trivia before its first token. -/
theorem Filler.tiling {table : Table} {offset : Nat} {gap source : List Char}
    {tokens : List Token} (hgap : Filler gap)
    (h : Tiling table (offset + size gap) source tokens) :
    Tiling table offset (gap ++ source) tokens := by
  have hsize : ∀ gap', offset + size gap + size gap' = offset + size (gap ++ gap') := by
    intro gap'
    rw [Text.size_append, Nat.add_assoc]
  cases h with
  | eof htrivia =>
    rw [hsize]
    exact .eof (hgap.trivia htrivia)
  | token htrivia hspells hcomplete htail =>
    rw [hsize] at htail ⊢
    rw [← List.append_assoc]
    exact .token (hgap.trivia htrivia) hspells hcomplete htail

/-- Before a blank, and at the end of the source, every lexeme is complete. -/
theorem Spells.complete {table : Table} {kind : Kind} {text rest : List Char}
    (h : Spells table kind text) (hrest : ∀ c ∈ rest.head?, Text.isBlank c = true) :
    Complete kind text rest := by
  have hstops : ∀ p : Char → Bool, (∀ c, Text.isBlank c = true → p c = false) → Stops p rest :=
    fun p hp c hc => hp c (hrest c hc)
  have hother : ∀ d : Char, Text.isBlank d = false → Stops (· == d) rest := by
    refine fun d hd => hstops _ fun c hc => ?_
    rw [beq_eq_false_iff_ne]
    rintro rfl
    rw [hd] at hc
    cases hc
  cases h with
  | keyword _ _ => exact hstops _ fun c => Text.isWordPart_of_isBlank
  | word _ _ => exact hstops _ fun c => Text.isWordPart_of_isBlank
  | whole _ => exact ⟨hstops _ fun c => Text.isDigit_of_isBlank, fun _ => hother '.' (by decide)⟩
  | decimal _ _ =>
    exact ⟨hstops _ fun c => Text.isDigit_of_isBlank, fun _ => hother '.' (by decide)⟩
  | text _ => trivial
  | symbol s =>
    refine ⟨fun t ht => ?_, fun _ => hother '/' (by decide)⟩
    by_contra hlt
    -- The longer symbol would hold the blank.
    obtain ⟨more, hmore⟩ := List.prefix_of_prefix_length_le (List.prefix_append s.chars rest) ht
      (by omega)
    cases more with
    | nil =>
      rw [← hmore, List.append_nil] at hlt
      omega
    | cons c more =>
      have hc : c ∈ t.chars := by simp [← hmore]
      rw [← hmore, List.prefix_append_right_inj] at ht
      obtain ⟨after, rfl⟩ := ht
      have hblank := hrest c rfl
      rw [Symbol.isBlank_of_mem_chars hc] at hblank
      cases hblank

/-- A lexeme at the very start of the source. -/
theorem Tiling.lexeme {table : Table} {offset : Nat} {text rest : List Char} {kind : Kind}
    {tokens : List Token} (h : Spells table kind text) (hcomplete : Complete kind text rest)
    (htail : Tiling table (offset + size text) rest tokens) :
    Tiling table offset (text ++ rest) (⟨kind, ⟨offset, offset + size text⟩⟩ :: tokens) :=
  show Tiling table offset ([] ++ (text ++ rest))
    (⟨kind, ⟨offset + size [], offset + size [] + size text⟩⟩ :: tokens) from
  .token .nil h hcomplete htail

/-- Texts that spell lexemes, with separators between them, are read as these lexemes, each where
    it was written. -/
theorem Placed.tiling {table : Table} {offset : Nat} {texts : List (List Char)}
    {source : List Char} {spans : List Span} (h : Placed offset texts source spans)
    {kinds : List Kind} (hspells : List.Forall₂ (Spells table) kinds texts) :
    ∃ tokens, Tiling table offset source tokens ∧ tokens.map Token.kind = kinds ++ [.eof] ∧
      tokens.map Token.span = spans ++ [⟨offset + size source, offset + size source⟩] := by
  induction h generalizing kinds with
  | nil =>
    cases hspells
    exact ⟨_, .eof .nil, rfl, rfl⟩
  | @last offset text =>
    cases hspells with
    | @cons kind _ _ _ htext hnil =>
      cases hnil
      have hcomplete : Complete kind text [] := htext.complete (by simp)
      have htiling := Tiling.lexeme htext hcomplete (@Tiling.eof table (offset + size text) [] .nil)
      rw [List.append_nil] at htiling
      exact ⟨_, htiling, rfl, rfl⟩
  | @cons offset text gap source texts spans hgap _ ih =>
    cases hspells with
    | @cons kind _ kinds _ htext hspells =>
      obtain ⟨tokens, htiling, hkinds, hspans⟩ := ih hspells
      have hcomplete : Complete kind text (gap ++ source) := by
        obtain ⟨c, cs, rfl, hblank, -⟩ := hgap
        refine htext.complete fun d hd => ?_
        obtain rfl : c = d := by simpa using hd
        exact hblank
      refine ⟨_, .lexeme htext hcomplete (hgap.filler.tiling htiling), ?_, ?_⟩
      · rw [List.map_cons, hkinds]
        rfl
      · rw [List.map_cons, hspans]
        simp only [Text.size_append, Nat.add_assoc, List.cons_append]

theorem Joined.tiling {table : Table} {texts : List (List Char)} {source : List Char}
    (h : Joined texts source) {kinds : List Kind}
    (hspells : List.Forall₂ (Spells table) kinds texts) (offset : Nat) :
    ∃ tokens, Tiling table offset source tokens ∧ tokens.map Token.kind = kinds ++ [.eof] := by
  obtain ⟨spans, hplaced⟩ := h.exists_placed offset
  obtain ⟨tokens, htiling, hkinds, -⟩ := hplaced.tiling hspells
  exact ⟨tokens, htiling, hkinds⟩

end Lexer

/-! ## What was written is found -/

theorem Spelling.forall₂_spells (table : Table) (lexemes : List Spelling) :
    List.Forall₂ (Lexer.Spells table) (lexemes.map (kind table)) (lexemes.map chars) := by
  rw [List.forall₂_map_left_iff, List.forall₂_map_right_iff, List.forall₂_same]
  exact fun s _ => s.spells table

/-- Lexemes that are written down with separators between them are found again, one token for each
    at the place where it was written, and nothing else is. Which separators they are has a bearing
    on the places alone. -/
theorem tokenize_placed (table : Table) (lexemes : List Spelling) (source : String)
    (spans : List Span) (h : Lexer.Placed 0 (lexemes.map Spelling.chars) source.toList spans) :
    (∃ tokens, tokenize table source = .ok tokens ∧
      tokens.map Token.kind = lexemes.map (Spelling.kind table) ++ [.eof] ∧
      tokens.map Token.span = spans ++ [⟨source.utf8ByteSize, source.utf8ByteSize⟩]) ∧
    ∀ source' spans', Lexer.Placed 0 (lexemes.map Spelling.chars) source'.toList spans' →
      (tokenize table source').map (List.map Token.kind) =
        (tokenize table source).map (List.map Token.kind) := by
  have hfound : ∀ source spans, Lexer.Placed 0 (lexemes.map Spelling.chars) source.toList spans →
      ∃ tokens, tokenize table source = .ok tokens ∧
        tokens.map Token.kind = lexemes.map (Spelling.kind table) ++ [.eof] ∧
        tokens.map Token.span = spans ++ [⟨source.utf8ByteSize, source.utf8ByteSize⟩] := by
    intro source spans h
    obtain ⟨tokens, htiling, hkinds, hspans⟩ := h.tiling (Spelling.forall₂_spells table lexemes)
    rw [Text.size_toList, Nat.zero_add] at hspans
    exact ⟨tokens, tokenize_eq_ok_iff.mpr htiling, hkinds, hspans⟩
  refine ⟨hfound source spans h, fun source' spans' h' => ?_⟩
  obtain ⟨tokens, htokens, hkinds, -⟩ := hfound source spans h
  obtain ⟨tokens', htokens', hkinds', -⟩ := hfound source' spans' h'
  rw [htokens, htokens']
  exact congrArg Except.ok (hkinds'.trans hkinds.symm)

theorem tokenize_placed_comment :
    Lexer.Placed 0 ["let".toList, "\"a \"".toList] "let // é\"\n\"a \"".toList
      [⟨0, 3⟩, ⟨11, 15⟩] ∧
    ∃ tokens, tokenize .english "let // é\"\n\"a \"" = .ok tokens ∧
      tokens.map Token.kind = [.keyword .letWord, .text "a ", .eof] ∧
      tokens.map Token.span = [⟨0, 3⟩, ⟨11, 15⟩, ⟨15, 15⟩] := by
  have hcomment : Lexer.Filler ('/' :: '/' :: ([' ', 'é', '"'] ++ '\n' :: [])) :=
    .comment (by decide) .nil
  have hgap : Lexer.Separator [' ', '/', '/', ' ', 'é', '"', '\n'] :=
    ⟨' ', _, rfl, by decide, hcomment⟩
  have hplaced : Lexer.Placed 0 ["let".toList, "\"a \"".toList] "let // é\"\n\"a \"".toList
      [⟨0, 3⟩, ⟨11, 15⟩] := .cons hgap (.last _)
  exact ⟨hplaced, (tokenize_placed .english
    [.word ⟨"let", by decide⟩, .text ⟨['a', ' '], by decide⟩] _ _ hplaced).1⟩

end Respell
