-- SUMMARY: What a table says of words and keywords is what the lexer does with them.
import Respell.Proofs.Lexing.Writing

/-!
# Words and keywords

Two parts of the library know what a word is: the table, which lists the keywords whose spelling is
none, and the lexer, which reads words character by character. Here they are shown to agree. A text
is a word if the lexer takes it for a single name or keyword, and every name and keyword of a source
is a word. So a keyword that is not listed can be used, unless a later role has taken its spelling.
-/

namespace Respell

/-- The roles that come after a role in the order of tables. -/
def Role.later (r : Role) : List Role :=
  (Role.all.dropWhile (· != r)).tail

/-- Whether a token is a word, which a table takes for a name or a keyword. -/
def Kind.isWord : Kind → Bool
  | .keyword _ => true
  | .word _ => true
  | _ => false

/-! ## Looking words up -/

theorem Role.all_eq (r : Role) : all = all.takeWhile (· != r) ++ r :: r.later := by
  cases r <;> rfl

theorem Role.not_mem_later (r : Role) : r ∉ r.later := by
  cases r <;> decide

namespace Table

variable {c : Config}

theorem lookup_eq_getLast? (c : Config) (word : String) :
    (ofConfig c).lookup word = (Role.all.filter fun r => c.spelling r == word).getLast? := by
  rw [← List.head?_reverse, ← List.filter_reverse, List.head?_filter, lookup, ofConfig,
    ← List.map_reverse, List.find?_map, Option.map_map]
  exact Option.map_id_apply

/-- A word stands for the last role that is spelled like it. -/
theorem lookup_eq_some_iff {word : String} {r : Role} :
    (ofConfig c).lookup word = some r ↔
      c.spelling r = word ∧ ∀ s ∈ r.later, c.spelling s ≠ word := by
  have hlast : c.spelling r = word → (ofConfig c).lookup word =
      (r.later.filter fun s => c.spelling s == word).getLast?.or (some r) := by
    intro hr
    rw [lookup_eq_getLast?, r.all_eq, List.filter_append,
      List.filter_cons_of_pos (by simpa using hr), List.getLast?_append, List.getLast?_cons]
    cases (r.later.filter fun s => c.spelling s == word).getLast? <;> rfl
  constructor
  · intro h
    have hr : c.spelling r = word := by
      rw [lookup_eq_getLast?] at h
      simpa using (List.mem_filter.mp (List.mem_of_getLast? h)).2
    refine ⟨hr, fun s hs hword => r.not_mem_later ?_⟩
    rw [hlast hr] at h
    cases hfound : (r.later.filter fun s => c.spelling s == word).getLast? with
    | none =>
      have hnil := List.filter_eq_nil_iff.mp (List.getLast?_eq_none_iff.mp hfound) s hs
      exact absurd hword (by simpa using hnil)
    | some t =>
      rw [hfound, Option.some_or] at h
      cases h
      exact List.mem_of_mem_filter (List.mem_of_getLast? hfound)
  · rintro ⟨hr, hlater⟩
    have hnil : (r.later.filter fun s => c.spelling s == word) = [] :=
      List.filter_eq_nil_iff.mpr fun s hs => by simpa using hlater s hs
    rw [hlast hr, hnil]
    rfl

theorem lookup_eq_none_iff {word : String} :
    (ofConfig c).lookup word = none ↔ ∀ r, c.spelling r ≠ word := by
  rw [lookup_eq_getLast?, List.getLast?_eq_none_iff, List.filter_eq_nil_iff]
  simp [Role.mem_all]

theorem mem_unreachable_iff {r : Role} :
    r ∈ (ofConfig c).unreachable.map Prod.snd ↔ Text.isWord (c.spelling r) = false := by
  simp only [unreachable, List.mem_map, List.mem_filter, mem_entries_ofConfig, Prod.exists,
    exists_eq_right]
  constructor
  · rintro ⟨word, rfl, h⟩
    simpa using h
  · exact fun h => ⟨_, rfl, by simp [h]⟩

end Table

/-! ## Words of a source -/

/-- The tokens of a source that is a single lexeme. -/
def Token.lone (kind : Kind) (source : String) : List Token :=
  [⟨kind, ⟨0, source.utf8ByteSize⟩⟩, ⟨.eof, ⟨source.utf8ByteSize, source.utf8ByteSize⟩⟩]

namespace Lexer

theorem Spells.isWord {table : Table} {kind : Kind} {text : List Char}
    (h : Spells table kind text) (hkind : kind.isWord = true) :
    Text.isWord (String.ofList text) = true ∧
      ∀ name, kind = .word name → name = String.ofList text := by
  rw [Text.isWord, String.toList_ofList]
  cases h with
  | keyword hchars _ => exact ⟨hchars, nofun⟩
  | word hchars _ => exact ⟨hchars, by rintro _ ⟨⟩; rfl⟩
  | _ => cases hkind

/-- A text that spells a token is read as it, alone. -/
theorem Spells.tokenize_lone {table : Table} {kind : Kind} {source : String}
    (h : Spells table kind source.toList) :
    tokenize table source = .ok (Token.lone kind source) := by
  have hcomplete : Complete kind source.toList [] := h.complete (by simp)
  have htiling := Tiling.lexeme h hcomplete
    (@Tiling.eof table (0 + Text.size source.toList) [] .nil)
  rw [List.append_nil] at htiling
  rw [tokenize_eq_ok_iff]
  simpa [Token.lone, Text.size_toList] using htiling

end Lexer

/-- Names and keywords of a source stand at words. -/
theorem word_of_mem_tokens {table : Table} {source : String} {tokens : List Token}
    (h : tokenize table source = .ok tokens) {t : Token} (ht : t ∈ tokens)
    (hkind : t.kind.isWord = true) : ∃ before word after,
      Lexer.Slice source.toList t.span before (String.toList word) after ∧
        Lexer.Spells table t.kind word.toList ∧ Text.isWord word = true ∧
        ∀ name, t.kind = .word name → name = word := by
  have hne : t.kind ≠ .eof := fun heof => by simp [heof, Kind.isWord] at hkind
  obtain ⟨before, text, after, hslice, hspells, -⟩ :=
    (tokenize_eq_ok_iff.mp h).slices [] rfl t ht hne
  obtain ⟨hword, hname⟩ := hspells.isWord hkind
  refine ⟨before, String.ofList text, after, ?_, ?_, hword, hname⟩
  · rwa [String.toList_ofList]
  · rwa [String.toList_ofList]

/-- The lexer takes words, and nothing else, for a single name or keyword. -/
theorem isWord_iff_tokenize_lone {table : Table} {s : String} : Text.isWord s = true ↔
    ∃ kind, kind.isWord = true ∧ tokenize table s = .ok (Token.lone kind s) := by
  constructor
  · intro h
    refine ⟨_, ?_, (Spelling.spells table (.word ⟨s, h⟩)).tokenize_lone⟩
    rw [Spelling.kind]
    cases table.lookup s <;> rfl
  · rintro ⟨kind, hkind, htokens⟩
    obtain ⟨before, word, after, hslice, -, hword, -⟩ :=
      word_of_mem_tokens htokens List.mem_cons_self hkind
    -- The word starts at the first byte and stops at the last one.
    have hbefore : before = [] := Text.size_eq_zero_iff.mp hslice.start_eq.symm
    have hsource := hslice.source_eq
    rw [hbefore, List.nil_append] at hsource
    have hsize : Text.size s.toList = Text.size word.toList := by
      rw [Text.size_toList]
      simpa [hbefore] using hslice.stop_eq
    obtain ⟨hs, -⟩ := Text.append_inj_of_size ((List.append_nil _).trans hsource) hsize
    rwa [String.toList_injective hs]

/-! ## Keywords of a source -/

/-- The table does not list the role as unreachable, and no later role has its spelling. -/
def Config.Readable (c : Config) (r : Role) : Prop :=
  r ∉ (Table.ofConfig c).unreachable.map Prod.snd ∧ ∀ s ∈ r.later, c.spelling s ≠ c.spelling r

theorem Config.Readable.tokenize_spelling {c : Config} {r : Role} (h : c.Readable r) :
    tokenize (.ofConfig c) (c.spelling r) = .ok (Token.lone (.keyword r) (c.spelling r)) := by
  have hword : Text.isWord (c.spelling r) = true := by simpa [Table.mem_unreachable_iff] using h.1
  have hlookup := Table.lookup_eq_some_iff.mpr ⟨rfl, h.2⟩
  have hspells := Spelling.spells (.ofConfig c) (.word ⟨c.spelling r, hword⟩)
  rw [Spelling.kind, hlookup] at hspells
  exact hspells.tokenize_lone

theorem Config.readable_of_mem_tokens {c : Config} {r : Role} {source : String}
    {tokens : List Token} (h : tokenize (.ofConfig c) source = .ok tokens) {t : Token}
    (ht : t ∈ tokens) (hkind : t.kind = .keyword r) : c.Readable r := by
  obtain ⟨-, word, -, -, hspells, hword, -⟩ := word_of_mem_tokens h ht (by rw [hkind]; rfl)
  rw [hkind] at hspells
  cases hspells with
  | keyword _ hlookup =>
    rw [String.ofList_toList] at hlookup
    obtain ⟨rfl, hlater⟩ := Table.lookup_eq_some_iff.mp hlookup
    exact ⟨by simp [Table.mem_unreachable_iff, hword], hlater⟩

/-- What the table of a configuration says of words and keywords is so in every source. -/
structure Config.LexedAsListed (c : Config) : Prop where
  /-- some source has the keyword of a role exactly if the table says that it can be read -/
  keyword : ∀ r, (∃ source tokens, tokenize (.ofConfig c) source = .ok tokens ∧
    ∃ t ∈ tokens, t.kind = .keyword r) ↔ c.Readable r
  /-- and then the spelling by itself is such a source -/
  spelling : ∀ r, c.Readable r →
    tokenize (.ofConfig c) (c.spelling r) = .ok (Token.lone (.keyword r) (c.spelling r))
  /-- a text is a word exactly if the lexer takes it for one name or keyword -/
  lone : ∀ s, Text.isWord s = true ↔
    ∃ kind, kind.isWord = true ∧ tokenize (.ofConfig c) s = .ok (Token.lone kind s)
  /-- the names and keywords of every source are words -/
  word : ∀ source tokens, tokenize (.ofConfig c) source = .ok tokens → ∀ t ∈ tokens,
    t.kind.isWord = true → ∃ before word after,
      Lexer.Slice source.toList t.span before (String.toList word) after ∧
        Text.isWord word = true ∧ ∀ name, t.kind = .word name → name = word
  /-- a word is looked up as the last role that is spelled like it -/
  lookup : ∀ word, (Table.ofConfig c).lookup word =
    (Role.all.filter fun r => c.spelling r == word).getLast?
  /-- and as none if there is no such role -/
  lookup_none : ∀ word, (Table.ofConfig c).lookup word = none ↔ ∀ r, c.spelling r ≠ word

/-- Under every configuration, the keywords that scripts can use and the words of a source are those
    that the table knows. -/
theorem Config.lexed_as_listed (c : Config) : c.LexedAsListed where
  keyword r := by
    constructor
    · rintro ⟨source, tokens, htokens, t, ht, hkind⟩
      exact readable_of_mem_tokens htokens ht hkind
    · intro h
      exact ⟨_, _, Readable.tokenize_spelling h, _, List.mem_cons_self, rfl⟩
  spelling _ := Readable.tokenize_spelling
  lone _ := isWord_iff_tokenize_lone
  word source tokens htokens t ht hkind := by
    obtain ⟨before, word, after, hslice, -, hword, hname⟩ := word_of_mem_tokens htokens ht hkind
    exact ⟨before, word, after, hslice, hword, hname⟩
  lookup := Table.lookup_eq_getLast? c
  lookup_none _ := Table.lookup_eq_none_iff

end Respell
