-- SUMMARY: The spelling of the keywords and the choice of names have no bearing on a script.
import Respell.Script
import Respell.Proofs.Lexing.Slicing
import Respell.Proofs.Running.Renaming

/-!
# Spellings do not matter

The same items are written twice, with the keywords of two configurations and with the names of the
second text changed one for one. Both texts have as tokens the kinds of the items, each at a place
of its own. So both are relabellings of one list of tokens whose spans count the tokens, and hence
both programs are relabellings of one program, whose run the two runs follow step by step.
-/

namespace Respell

/-! ## Labels from the places of tokens -/

namespace Token

/-- Tokens that stand at their own place in the list. -/
def numbered (kinds : List Kind) : List Token :=
  kinds.mapIdx fun i k => ⟨k, ⟨i, i⟩⟩

theorem numbered_append_eof (kinds : List Kind) : numbered (kinds ++ [.eof]) =
    numbered kinds ++ [⟨.eof, ⟨kinds.length, kinds.length⟩⟩] := by
  simp [numbered, List.mapIdx_append]

/-- The span of the token at a place, or of the last token. -/
def spanAt (tokens : List Token) (i : Nat) : Span :=
  (tokens[min i (tokens.length - 1)]?.getD default).span

theorem spanAt_eq {tokens : List Token} {i : Nat} {t : Token} (h : tokens[i]? = some t) :
    spanAt tokens i = t.span := by
  have hi := (List.getElem?_eq_some_iff.mp h).1
  rw [spanAt, Nat.min_eq_left (by omega), h]
  rfl

/-- Every place has a token. -/
theorem exists_spanAt {tokens : List Token} (h : tokens ≠ []) (i : Nat) :
    ∃ t, tokens[min i (tokens.length - 1)]? = some t ∧ spanAt tokens i = t.span := by
  have hpos := List.length_pos_iff.mpr h
  have hsome := List.getElem?_eq_getElem (show min i (tokens.length - 1) < tokens.length by omega)
  exact ⟨_, hsome, by rw [spanAt, hsome]; rfl⟩

theorem Ordered.monotone {tokens : List Token} (h : Ordered tokens) {i j : Nat} (hij : i ≤ j) :
    (spanAt tokens i).start ≤ (spanAt tokens j).start ∧
      (spanAt tokens i).stop ≤ (spanAt tokens j).stop := by
  by_cases hnil : tokens = []
  · simp [hnil, spanAt]
  obtain ⟨t, ht, hspan⟩ := exists_spanAt hnil i
  obtain ⟨u, hu, hspan'⟩ := exists_spanAt hnil j
  rw [hspan, hspan']
  rcases Nat.eq_or_lt_of_le (show min i (tokens.length - 1) ≤ min j (tokens.length - 1) by omega)
    with heq | hlt
  · rw [heq, hu] at ht
    cases ht
    exact ⟨Nat.le_refl _, Nat.le_refl _⟩
  · obtain ⟨hi, rfl⟩ := List.getElem?_eq_some_iff.mp ht
    obtain ⟨hj, rfl⟩ := List.getElem?_eq_some_iff.mp hu
    have hnext := List.pairwise_iff_getElem.mp h.pairwise _ _ hi hj hlt
    have hfirst := h.start_le _ (List.getElem_mem hi)
    have hsecond := h.start_le _ (List.getElem_mem hj)
    omega

end Token

/-- Names are changed by a function, and a span from one place to another becomes the span from the
    start of the one token to the stop of the other. -/
def Labels.ofTokens (name : String → String) (tokens : List Token) : Labels :=
  ⟨name, fun s => ⟨(Token.spanAt tokens s.start).start, (Token.spanAt tokens s.stop).stop⟩⟩

namespace Labels

variable {name : String → String} {tokens : List Token}

theorem merges_ofTokens (h : Token.Ordered tokens) : (ofTokens name tokens).Merges := by
  intro a b
  have hstart : Monotone fun i => (Token.spanAt tokens i).start := fun i j hij => (h.monotone hij).1
  have hstop : Monotone fun i => (Token.spanAt tokens i).stop := fun i j hij => (h.monotone hij).2
  exact congrArg₂ Span.mk (hstart.map_min) (hstop.map_max)

/-- The tokens are the numbered ones with these labels. -/
theorem numbered_relabel {kinds : List Kind}
    (h : tokens.map Token.kind = kinds.map (Kind.relabel (ofTokens name tokens))) :
    (Token.numbered kinds).map (Token.relabel (ofTokens name tokens)) = tokens := by
  refine List.ext_getElem? fun i => ?_
  have hi := congrArg (·[i]?) h
  simp only [List.getElem?_map] at hi
  simp only [Token.numbered, List.getElem?_map, List.getElem?_mapIdx]
  cases ht : tokens[i]? with
  | none =>
    rw [ht] at hi
    rw [Option.map_eq_none_iff.mp hi.symm]
    rfl
  | some t =>
    rw [ht] at hi
    obtain ⟨k, hk, hkind⟩ := Option.map_eq_some_iff.mp hi.symm
    rw [hk]
    have hspan : (ofTokens name tokens).span ⟨i, i⟩ = t.span := by
      simp only [ofTokens, Token.spanAt_eq ht]
    simp [Token.relabel, hspan, hkind]

end Labels

/-! ## Programs from the kinds of their tokens -/

namespace Program

variable {kinds : List Kind}

/-- Tokens are parsed as the numbered tokens of their kinds are, with the labels that tell where
    they stand. -/
theorem parse_numbered {name : String → String} {tokens : List Token} (h : Token.Ordered tokens)
    (hkinds : tokens.map Token.kind =
      kinds.map (Kind.relabel (.ofTokens name tokens)) ++ [.eof]) :
    parse tokens =
      ((parse (Token.numbered (kinds ++ [.eof]))).mapError
        (ParseError.relabel (.ofTokens name tokens))).map (relabel (.ofTokens name tokens)) := by
  have hnumbered : (Token.numbered (kinds ++ [.eof])).map
      (Token.relabel (.ofTokens name tokens)) = tokens :=
    Labels.numbered_relabel (by rw [hkinds, List.map_append]; rfl)
  rw [← parse_relabel (Labels.merges_ofTokens h) (Token.numbered_append_eof kinds), hnumbered]

/-- The names of the program are among the kinds. -/
theorem names_numbered {p : Program} (h : parse (Token.numbered (kinds ++ [.eof])) = .ok p) :
    ∀ x ∈ Stmt.namesAll p.statements, .word x ∈ kinds := by
  intro x hx
  obtain ⟨t, ht, hkind⟩ := names_of_parse (Token.numbered_append_eof kinds) h x hx
  obtain ⟨i, hi, rfl⟩ := List.mem_mapIdx.mp ht
  have hmem := List.getElem_mem hi
  rw [show (kinds ++ [.eof])[i] = .word x from hkind] at hmem
  simpa using hmem

end Program

/-! ## Reports that correspond -/

/-- An error of a script with other labels. -/
def ScriptError.relabel (ℓ : Labels) : ScriptError → ScriptError
  | .lex e => .lex (e.relabel ℓ)
  | .parse e => .parse (e.relabel ℓ)
  | .runtime e => .runtime (e.relabel ℓ)

/-- From the start of one token to the stop of another, at the same places of both lists. -/
def Span.Corresponds (ts us : List Token) (s s' : Span) : Prop :=
  ∃ i j : Nat,
    ts[i]?.map (·.span.start) = some s.start ∧ us[i]?.map (·.span.start) = some s'.start ∧
      ts[j]?.map (·.span.stop) = some s.stop ∧ us[j]?.map (·.span.stop) = some s'.stop

/-- Both scripts end the same way, with the names of the second changed by `f`. Errors are the same
    but for names and spans, and the spans correspond. -/
inductive Ending.Corresponds (f : String → String) (ts us : List Token) :
    Ending → Ending → Prop where
  | finished {g g' : Scope} (v : Value) : g'.entries = g.entries.map (Prod.map f id) →
      Corresponds f ts us (.finished v g) (.finished v g')
  | failed {e e' : ScriptError} : e' = e.relabel ⟨f, fun _ => e'.span⟩ →
      e.span.Corresponds ts us e'.span → Corresponds f ts us (.failed e) (.failed e')
  | cut : Corresponds f ts us .cut .cut

/-- Both scripts do the same, with the names of the second changed by `f`. -/
structure Report.Corresponds (f : String → String) (ts us : List Token) (a b : Report) : Prop where
  ending : a.ending.Corresponds f ts us b.ending
  printed : b.printed = a.printed
  tokens : b.tokens = a.tokens
  statements : b.statements = a.statements

section Corresponding

variable {f : String → String} {ts us : List Token}

theorem Span.corresponds_relabel (hlength : us.length = ts.length) (hne : ts ≠ []) (s : Span)
    (name name' : String → String) :
    ((Labels.ofTokens name ts).span s).Corresponds ts us ((Labels.ofTokens name' us).span s) := by
  have hne' : us ≠ [] := by
    rintro rfl
    exact hne (List.length_eq_zero_iff.mp hlength.symm)
  obtain ⟨t, ht, hstart⟩ := Token.exists_spanAt hne s.start
  obtain ⟨u, hu, hstart'⟩ := Token.exists_spanAt hne' s.start
  obtain ⟨t', ht', hstop⟩ := Token.exists_spanAt hne s.stop
  obtain ⟨u', hu', hstop'⟩ := Token.exists_spanAt hne' s.stop
  rw [hlength] at hu hu'
  refine ⟨min s.start (ts.length - 1), min s.stop (ts.length - 1), ?_⟩
  simp [Labels.ofTokens, ht, hu, ht', hu', hstart, hstart', hstop, hstop']

/-- The same error under the labels of both lists. -/
theorem Ending.corresponds_failed (hlength : us.length = ts.length) (hne : ts ≠ [])
    (e : ScriptError) :
    Corresponds f ts us (.failed (e.relabel (.ofTokens id ts)))
      (.failed (e.relabel (.ofTokens f us))) := by
  have hspan : ∀ ℓ, (e.relabel ℓ).span = ℓ.span e.span := by
    intro ℓ
    cases e with
    | lex e => cases e <;> rfl
    | parse e => rfl
    | runtime e => cases e <;> rfl
  refine .failed ?_ ?_
  · cases e with
    | lex e => cases e <;> rfl
    | parse e =>
      obtain ⟨complaint, span⟩ := e
      cases complaint with
      | wanted what found => cases found <;> rfl
      | wantedName found => cases found <;> rfl
      | _ => rfl
    | runtime e => cases e <;> rfl
  · rw [hspan, hspan]
    exact Span.corresponds_relabel hlength hne e.span id f

/-- Two runs that follow the same run have corresponding reports. -/
theorem Report.corresponds_ofRun (hlength : us.length = ts.length) (hne : ts ≠ []) {N : Set String}
    {r r₁ r₂ : Run} (h₁ : r.Follows (.ofTokens id ts) (Environment.Renamed N id) r₁)
    (h₂ : r.Follows (.ofTokens f us) (Environment.Renamed N f) r₂) (tokens statements : Nat) :
    (Script.ofRun tokens statements r₁).Corresponds f ts us
      (Script.ofRun tokens statements r₂) := by
  cases h₁ with
  | done v hm =>
    cases h₂ with
    | done _ hm' =>
      refine ⟨.finished v ?_, hm'.printed.trans hm.printed.symm, rfl, rfl⟩
      rw [hm'.env.globals.entries, hm.env.globals.entries, List.map_map]
      rfl
  | failed e hm =>
    cases h₂ with
    | failed _ hm' =>
      refine ⟨?_, hm'.printed.trans hm.printed.symm, rfl, rfl⟩
      exact Ending.corresponds_failed hlength hne (.runtime e)
  | cut hm =>
    cases h₂ with
    | cut hm' => exact ⟨.cut, hm'.printed.trans hm.printed.symm, rfl, rfl⟩

end Corresponding

/-! ## Names -/

/-- A renaming of words as one of texts; a text that is no word stays. -/
def Word.lift (r : Word → Word) (x : String) : String :=
  if h : Text.isWord x = true then (r ⟨x, h⟩).text else x

theorem Word.lift_text (r : Word → Word) (w : Word) : lift r w.text = (r w).text := by
  rw [lift, dif_pos w.isWord]

/-- The names among some items. -/
def Item.names (items : List Item) : Set String :=
  {x | ∃ w, .word w ∈ items ∧ w.text = x}

theorem Item.injOn_lift {items : List Item} {r : Word → Word}
    (h : Set.InjOn r {w | .word w ∈ items}) : (names items).InjOn (Word.lift r) := by
  rintro _ ⟨w, hw, rfl⟩ _ ⟨w', hw', rfl⟩ heq
  rw [Word.lift_text, Word.lift_text] at heq
  rw [h hw hw' (Word.ext heq)]

theorem Item.kind_rename (r : Word → Word) (item : Item) {ℓ : Labels} (hℓ : ℓ.name = Word.lift r) :
    (item.rename r).kind = item.kind.relabel ℓ := by
  cases item with
  | word w => rw [rename, kind, kind, Kind.relabel, hℓ, Word.lift_text]
  | _ => rfl

theorem Item.exists_of_mem_rename {items : List Item} {r : Word → Word} {w : Word}
    (h : .word w ∈ items.map (rename r)) : ∃ w', .word w' ∈ items ∧ r w' = w := by
  obtain ⟨item, hitem, hword⟩ := List.mem_map.mp h
  cases item with
  | word w' =>
    cases hword
    exact ⟨w', hitem, rfl⟩
  | _ => cases hword

theorem Item.mem_names {items : List Item} {x : String} (h : .word x ∈ items.map kind) :
    x ∈ names items := by
  obtain ⟨item, hitem, hkind⟩ := List.mem_map.mp h
  cases item with
  | word w =>
    cases hkind
    exact ⟨w, hitem, rfl⟩
  | _ => cases hkind

/-! ## Respelled scripts -/

namespace Script

/-- Items that are written down are read back, each as a token at a place of its own. -/
theorem exists_tokens {c : Config} (hc : c.Distinct) {items : List Item}
    (hfree : ∀ w, .word w ∈ items → ∀ role, c.spelling role ≠ w.text) {source : String}
    (h : Lexer.Joined (items.map (Item.chars c)) source.toList) :
    ∃ tokens, tokenize (.ofConfig c) source = .ok tokens ∧ Token.Ordered tokens ∧
      tokens.map Token.kind = items.map Item.kind ++ [.eof] := by
  have hspells : List.Forall₂ (Lexer.Spells (.ofConfig c)) (items.map Item.kind)
      (items.map (Item.chars c)) := by
    rw [List.forall₂_map_left_iff, List.forall₂_map_right_iff, List.forall₂_same]
    exact fun item hitem => item.spells hc fun w hw => hfree w (hw ▸ hitem)
  obtain ⟨tokens, htiling, hkinds⟩ := h.tiling hspells 0
  exact ⟨tokens, tokenize_eq_ok_iff.mpr htiling, ⟨htiling.start_le_stop, htiling.ordered⟩, hkinds⟩

/-- Sources whose tokens have the same kinds, but for names that are changed one for one, do the
    same. -/
theorem run_corresponds {table₁ table₂ : Table} {source₁ source₂ : String} {ts us : List Token}
    {f : String → String} {kinds : List Kind} {N : Set String}
    (hts : tokenize table₁ source₁ = .ok ts) (hus : tokenize table₂ source₂ = .ok us)
    (hordered₁ : Token.Ordered ts) (hordered₂ : Token.Ordered us)
    (hkinds₁ : ts.map Token.kind = kinds.map (Kind.relabel (.ofTokens id ts)) ++ [.eof])
    (hkinds₂ : us.map Token.kind = kinds.map (Kind.relabel (.ofTokens f us)) ++ [.eof])
    (hf : N.InjOn f) (hN : ∀ x, .word x ∈ kinds → x ∈ N) (steps : Nat) :
    (run steps table₁ source₁).Corresponds f ts us (run steps table₂ source₂) := by
  have hlength : us.length = ts.length := by
    have h₁ := congrArg List.length hkinds₁
    have h₂ := congrArg List.length hkinds₂
    simp only [List.length_map, List.length_append] at h₁ h₂
    rw [h₁, h₂]
  have hne : ts ≠ [] := by
    rintro rfl
    simp at hkinds₁
  rw [run, run, hts, hus]
  dsimp only
  rw [Program.parse_numbered hordered₁ hkinds₁, Program.parse_numbered hordered₂ hkinds₂]
  cases hparse : Program.parse (Token.numbered (kinds ++ [.eof])) with
  | error e =>
    exact ⟨Ending.corresponds_failed hlength hne (.parse e), rfl, congrArg some hlength, rfl⟩
  | ok p =>
    have hnames : ∀ x ∈ Stmt.namesAll p.statements, x ∈ N :=
      fun x hx => hN x (Program.names_numbered hparse x hx)
    have hid : N.InjOn id := Function.injective_id.injOn
    have h₁ := Machine.run_relabel (ℓ := .ofTokens id ts) hid steps p hnames
    have h₂ := Machine.run_relabel (ℓ := .ofTokens f us) hf steps p hnames
    simp only [Except.mapError, Except.map, hlength, Program.relabel, Stmt.length_relabelAll]
    exact Report.corresponds_ofRun hlength hne h₁ h₂ ts.length p.statements.length

/-- Scripts that differ in the spelling of their keywords and, one for one, in their names do the
    same, whatever the number of steps. -/
theorem run_respelled (c₁ c₂ : Config) (h₁ : c₁.Distinct) (h₂ : c₂.Distinct) (items : List Item)
    (r : Word → Word) (hr : Set.InjOn r {w | .word w ∈ items})
    (hfree₁ : ∀ w, .word w ∈ items → ∀ role, c₁.spelling role ≠ w.text)
    (hfree₂ : ∀ w, .word w ∈ items → ∀ role, c₂.spelling role ≠ (r w).text)
    (source₁ source₂ : String) (hw₁ : Lexer.Joined (items.map (Item.chars c₁)) source₁.toList)
    (hw₂ : Lexer.Joined ((items.map (Item.rename r)).map (Item.chars c₂)) source₂.toList) :
    ∃ ts us : List Token, tokenize (.ofConfig c₁) source₁ = .ok ts ∧
      tokenize (.ofConfig c₂) source₂ = .ok us ∧
      ts.map Token.kind = items.map Item.kind ++ [.eof] ∧
      us.map Token.kind = (items.map (Item.rename r)).map Item.kind ++ [.eof] ∧
      ∀ steps, (run steps (.ofConfig c₁) source₁).Corresponds (Word.lift r) ts us
        (run steps (.ofConfig c₂) source₂) := by
  have hfree₂' : ∀ w, .word w ∈ items.map (Item.rename r) → ∀ role, c₂.spelling role ≠ w.text := by
    intro w hw
    obtain ⟨w', hw', rfl⟩ := Item.exists_of_mem_rename hw
    exact hfree₂ w' hw'
  obtain ⟨ts, hts, hordered₁, hkinds₁⟩ := exists_tokens h₁ hfree₁ hw₁
  obtain ⟨us, hus, hordered₂, hkinds₂⟩ := exists_tokens h₂ hfree₂' hw₂
  have hsame : ts.map Token.kind =
      (items.map Item.kind).map (Kind.relabel (.ofTokens id ts)) ++ [.eof] := by
    rw [hkinds₁, List.map_map]
    refine congrArg (· ++ [Kind.eof]) (List.map_congr_left fun item _ => ?_)
    exact (Kind.relabel_of_name rfl).symm
  have hrenamed : us.map Token.kind =
      (items.map Item.kind).map (Kind.relabel (.ofTokens (Word.lift r) us)) ++ [.eof] := by
    rw [hkinds₂, List.map_map, List.map_map]
    refine congrArg (· ++ [Kind.eof]) (List.map_congr_left fun item _ => ?_)
    exact item.kind_rename r rfl
  exact ⟨ts, us, hts, hus, hkinds₁, hkinds₂, run_corresponds hts hus hordered₁ hordered₂ hsame
    hrenamed (Item.injOn_lift hr) fun x hx => Item.mem_names hx⟩

theorem run_respelled_print :
    ∃ ts us : List Token, tokenize (.ofConfig .english) "print ( x )" = .ok ts ∧
      tokenize (.ofConfig (Config.english.set .printWord "zeige")) "zeige ( y )" = .ok us ∧
      ∀ steps, (run steps (.ofConfig .english) "print ( x )").Corresponds
        (Word.lift fun _ => ⟨"y", by decide⟩) ts us
        (run steps (.ofConfig (Config.english.set .printWord "zeige")) "zeige ( y )") := by
  have hspace : Lexer.Separator [' '] := ⟨' ', [], rfl, by decide, .nil⟩
  have hsource₁ : "print ( x )".toList =
      "print".toList ++ ([' '] ++ (['('] ++ ([' '] ++ ("x".toList ++ ([' '] ++ [')']))))) := by
    decide
  have hsource₂ : "zeige ( y )".toList =
      "zeige".toList ++ ([' '] ++ (['('] ++ ([' '] ++ ("y".toList ++ ([' '] ++ [')']))))) := by
    decide
  have hitems : ∀ w, Item.word w ∈ [.keyword .printWord, .symbol .leftParen,
      .word ⟨"x", by decide⟩, .symbol .rightParen] → w = ⟨"x", by decide⟩ := by
    simp
  obtain ⟨ts, us, hts, hus, -, -, h⟩ := run_respelled .english
    (Config.english.set .printWord "zeige")
    ⟨fun role => by cases role <;> decide, fun h => Role.word_injective (by
      rwa [Config.english_spelling, Config.english_spelling] at h)⟩
    ⟨fun role => by cases role <;> decide, fun {role role'} => by
      cases role <;> cases role' <;> decide⟩
    [.keyword .printWord, .symbol .leftParen, .word ⟨"x", by decide⟩, .symbol .rightParen]
    (fun _ => ⟨"y", by decide⟩) (fun w hw w' hw' _ => (hitems w hw).trans (hitems w' hw').symm)
    (fun w hw role => by rw [hitems w hw]; cases role <;> decide)
    (fun w hw role => by cases role <;> decide)
    "print ( x )" "zeige ( y )"
    (by rw [hsource₁]; exact .cons hspace (.cons hspace (.cons hspace (.last _))))
    (by rw [hsource₂]; exact .cons hspace (.cons hspace (.cons hspace (.last _))))
  exact ⟨ts, us, hts, hus, h⟩

end Script

end Respell
