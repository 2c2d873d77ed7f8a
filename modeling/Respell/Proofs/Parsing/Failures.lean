-- SUMMARY: A parse that fails depends on no token after the one where it fails.
import Respell.Proofs.Parsing.Lookahead

/-!
# Where a parse fails

A parser goes through the tokens one by one and never past the end of the input: `Walks`. So the
number of a cursor says which of the tokens stand before it, and where two lists agree up to the
cursor at which a parser stops, a local parser stops in both of them with the same reply. An error
is therefore settled by the tokens up to the one at which it arises, and no reply depends on what
comes after the end of the input.
-/

namespace Respell

/-! ## Walking through the tokens -/

theorem Cursor.exists_takes_advance (c : Cursor) : ∃ ts, c.Takes ts c.advance := by
  cases h : c.kind.isEof with
  | true => exact ⟨[], (Cursor.advance_of_isEof h).symm ▸ .nil c⟩
  | false => exact ⟨[c.current], Cursor.takes_advance h⟩

namespace Parser

/-- Wherever the parser stops, it has come there token by token. -/
def Walks {α : Type} (p : Parser α) : Prop :=
  ∀ c : Cursor, ∃ ts, c.Takes ts (p c).place

namespace Walks

variable {α β : Type}

theorem stay (p : Parser α) (h : ∀ c, (p c).place = c) : Walks p :=
  fun c => ⟨[], (h c).symm ▸ .nil c⟩

theorem bind {p : Parser β} {k : β → Parser α} (hp : Walks p) (hk : ∀ b, Walks (k b)) :
    Walks (p >>= k) := by
  intro c
  obtain ⟨ts, hts⟩ := hp c
  change ∃ us, c.Takes us (Parser.bind p k c).place
  unfold Parser.bind
  cases hpc : p c with
  | error e place =>
    rw [hpc] at hts
    exact ⟨ts, hts⟩
  | ok b mid =>
    rw [hpc] at hts
    obtain ⟨us, hus⟩ := hk b mid
    exact ⟨ts ++ us, hts.trans hus⟩

theorem eat (s : Symbol) : Walks (eat s) := by
  intro c
  unfold Parser.eat
  split
  · exact c.exists_takes_advance
  · exact ⟨[], .nil c⟩

theorem expect (s : Symbol) : Walks (expect s) := by
  intro c
  unfold Parser.expect
  split
  · exact c.exists_takes_advance
  · exact ⟨[], .nil c⟩

theorem sequential : Sequential Walks where
  pure _ := stay _ fun _ => rfl
  bind := Walks.bind
  peek := stay _ fun _ => rfl
  previous := stay _ fun _ => rfl
  next c := c.exists_takes_advance
  failAt _ _ := stay _ fun _ => rfl
  fail _ := stay _ fun _ => rfl
  wanted _ := stay _ fun _ => rfl
  sees _ := stay _ fun _ => rfl
  eat := Walks.eat
  expect := Walks.expect

theorem compositional : Compositional Walks where
  toSequential := Walks.sequential
  statements _ _ hs c := Walks.sequential.statementsWithin hs _ c.later.length c

/-- What is read moves the cursor on by as much. -/
theorem index_add_length {p : Parser α} (h : Walks p) {c : Cursor} (hc : c.Closed) :
    (p c).place.index + (p c).place.tokens.length = c.index + c.tokens.length := by
  obtain ⟨ts, hts⟩ := h c
  rw [hts.index_eq hc, hts.tokens_eq hc, List.length_append]
  omega

/-- A parser does not go past the end of the input. -/
theorem not_suffix_of_eof {p : Parser α} (h : Walks p) {c : Cursor} (hc : c.Closed)
    {front rest : List Token} {s : Span} (htokens : c.tokens = front ++ ⟨.eof, s⟩ :: rest) :
    ¬ (p c).place.tokens <:+ rest := by
  intro hsuffix
  obtain ⟨ts, hts⟩ := h c
  have hlength := hsuffix.length_le
  have happend : (front ++ [⟨.eof, s⟩]) ++ rest = ts ++ (p c).place.tokens := by
    rw [← hts.tokens_eq hc, htokens, List.append_assoc, List.singleton_append]
  have hle : (front ++ [(⟨.eof, s⟩ : Token)]).length ≤ ts.length := by
    have hsum := congrArg List.length happend
    simp only [List.length_append] at hsum ⊢
    omega
  have hprefix : front ++ [⟨.eof, s⟩] <+: ts :=
    List.prefix_of_prefix_length_le ⟨rest, happend⟩ (List.prefix_append _ _) hle
  have hmem : (⟨.eof, s⟩ : Token) ∈ ts :=
    hprefix.subset (List.mem_append_right _ (List.mem_singleton_self _))
  exact absurd (hts.isEof _ hmem) nofun

/-- A parser that stops among the first tokens has not come to the others. -/
theorem not_suffix_of_index {p : Parser α} (h : Walks p) {c : Cursor} (hc : c.Closed)
    {ts rest : List Token} (htokens : c.tokens = ts ++ rest)
    (hindex : (p c).place.index < c.index + ts.length) : ¬ (p c).place.tokens <:+ rest := by
  intro hsuffix
  have hlength := hsuffix.length_le
  have hadd := h.index_add_length hc
  rw [htokens, List.length_append] at hadd
  omega

end Walks

end Parser

/-! ## Lists that begin alike -/

/-- Two replies say the same, and were given after as many tokens. -/
inductive Reply.Same {α : Type} : Reply α → Reply α → Prop where
  | ok {c c' : Cursor} (a : α) : c'.index = c.index → Same (.ok a c) (.ok a c')
  | error {c c' : Cursor} (e : ParseError) : c'.index = c.index → Same (.error e c) (.error e c')

namespace Cursor

theorem index_ofTokens (tokens : List Token) : (ofTokens tokens).index = 0 := by
  cases tokens <;> rfl

theorem prefix_tokens_ofTokens (tokens : List Token) : tokens <+: (ofTokens tokens).tokens := by
  cases tokens with
  | nil => exact List.nil_prefix
  | cons first rest =>
    have hrest : ∀ (closed : Bool) (t : Token), rest <+: if closed then rest else rest ++ [t] := by
      intro closed t
      cases closed with
      | true => exact List.prefix_refl rest
      | false => exact List.prefix_append rest [t]
    exact List.cons_prefix_cons.mpr ⟨rfl, hrest _ _⟩

theorem shares_ofTokens {tokens tokens' ts rest rest' : List Token}
    (h : (ofTokens tokens).tokens = ts ++ rest) (h' : (ofTokens tokens').tokens = ts ++ rest') :
    (ofTokens tokens).Shares ts rest rest' (ofTokens tokens') :=
  ⟨h, h', by rw [previous_ofTokens, previous_ofTokens], closed_ofTokens _, closed_ofTokens _⟩

/-- Lists that begin alike get the same reply if the parser does not leave what they share. -/
theorem Shares.same {α : Type} {p : Parser α} (hlocal : p.Local) (hwalks : p.Walks)
    {c c' : Cursor} {t : Token} {ts rest rest' : List Token}
    (h : c.Shares (t :: ts) rest rest' c') (hindex : c'.index = c.index)
    (hpast : ¬ (p c).place.tokens <:+ rest) : (p c).Same (p c') := by
  have hplace : ∀ {u : Token} {us : List Token},
      (p c).place.Shares (u :: us) rest rest' (p c').place →
      (p c').place.index = (p c).place.index := by
    intro u us hstop
    have hadd := hwalks.index_add_length h.closed
    have hadd' := hwalks.index_add_length h.closed'
    simp only [h.tokens, h.tokens', hstop.tokens, hstop.tokens', List.length_append] at hadd hadd'
    omega
  have hagrees := hlocal.agrees h
  generalize p c = r, p c' = r' at hagrees hplace hpast
  cases hagrees with
  | ok a hstop => exact .ok a (hplace hstop)
  | error e hstop => exact .error e (hplace hstop)
  | past hsuffix => exact absurd hsuffix hpast

end Cursor

/-! ## Programs -/

namespace Program

/-- Lists that share their tokens up to the end of the input get the same reply. -/
theorem same_of_eof {tokens tokens' front rest rest' : List Token} {s : Span}
    (h : (Cursor.ofTokens tokens).tokens = front ++ ⟨.eof, s⟩ :: rest)
    (h' : (Cursor.ofTokens tokens').tokens = front ++ ⟨.eof, s⟩ :: rest') :
    (Parser.program (Cursor.ofTokens tokens)).Same (Parser.program (Cursor.ofTokens tokens')) := by
  have hpast := Parser.Walks.compositional.program.not_suffix_of_eof
    (Cursor.closed_ofTokens tokens) h
  have hindex : (Cursor.ofTokens tokens').index = (Cursor.ofTokens tokens).index := by
    rw [Cursor.index_ofTokens, Cursor.index_ofTokens]
  rw [← List.singleton_append, ← List.append_assoc] at h h'
  have hshares := Cursor.shares_ofTokens h h'
  obtain ⟨t, ts, hts⟩ := List.exists_cons_of_ne_nil
    (List.append_ne_nil_of_right_ne_nil front (List.cons_ne_nil (⟨.eof, s⟩ : Token) []))
  rw [hts] at hshares
  exact hshares.same Parser.Local.compositional.program Parser.Walks.compositional.program hindex
    hpast

/-- The parser stops at one of the tokens. -/
theorem index_lt (tokens : List Token) :
    (Parser.program (Cursor.ofTokens tokens)).place.index <
      (Cursor.ofTokens tokens).tokens.length := by
  have hadd := Parser.Walks.compositional.program.index_add_length (Cursor.closed_ofTokens tokens)
  rw [Cursor.index_ofTokens, Nat.zero_add] at hadd
  have hpos : 0 < (Parser.program (Cursor.ofTokens tokens)).place.tokens.length :=
    Nat.zero_lt_succ _
  omega

/-- Lists that share their tokens up to the one where the parser stops get the same reply. -/
theorem same_of_take {tokens tokens' : List Token} {k : Nat}
    (hk : (Parser.program (Cursor.ofTokens tokens)).place.index = k)
    (h : (Cursor.ofTokens tokens').tokens.take (k + 1) =
      (Cursor.ofTokens tokens).tokens.take (k + 1)) :
    (Parser.program (Cursor.ofTokens tokens)).Same (Parser.program (Cursor.ofTokens tokens')) := by
  have htokens := (List.take_append_drop (k + 1) (Cursor.ofTokens tokens).tokens).symm
  have htokens' := (List.take_append_drop (k + 1) (Cursor.ofTokens tokens').tokens).symm
  rw [h] at htokens'
  have hlt := index_lt tokens
  have hpast := Parser.Walks.compositional.program.not_suffix_of_index
    (Cursor.closed_ofTokens tokens) htokens (by
      rw [Cursor.index_ofTokens, List.length_take]
      omega)
  exact (Cursor.shares_ofTokens htokens htokens').same Parser.Local.compositional.program
    Parser.Walks.compositional.program
    (by rw [Cursor.index_ofTokens, Cursor.index_ofTokens]) hpast

theorem parse_eq_of_same {tokens tokens' : List Token}
    (h : (Parser.program (Cursor.ofTokens tokens)).Same
      (Parser.program (Cursor.ofTokens tokens'))) : parse tokens' = parse tokens := by
  unfold parse
  generalize Parser.program (Cursor.ofTokens tokens) = r,
    Parser.program (Cursor.ofTokens tokens') = r' at h
  cases h <;> rfl

/-- The parser stops at the first error and has looked at no token after it. If it fails at token
    number `k`, then it fails with the same error at the same token on every list that agrees with
    this one up to and including that token. And whether it fails or not, its answer depends only on
    the tokens up to the first end of the input, so that a list can be cut there. -/
theorem parse_fails_fast :
    (∀ tokens e place, Parser.program (Cursor.ofTokens tokens) = .error e place →
      place.index < (Cursor.ofTokens tokens).tokens.length ∧
      ∀ tokens', (Cursor.ofTokens tokens').tokens.take (place.index + 1) =
          (Cursor.ofTokens tokens).tokens.take (place.index + 1) →
        parse tokens' = .error e ∧
        ∃ place', Parser.program (Cursor.ofTokens tokens') = .error e place' ∧
          place'.index = place.index) ∧
    (∀ tokens tokens' front rest rest' s,
      (Cursor.ofTokens tokens).tokens = front ++ ⟨.eof, s⟩ :: rest →
      (Cursor.ofTokens tokens').tokens = front ++ ⟨.eof, s⟩ :: rest' →
      parse tokens' = parse tokens) ∧
    (∀ front rest s, parse (front ++ ⟨.eof, s⟩ :: rest) = parse (front ++ [⟨.eof, s⟩])) := by
  refine ⟨fun tokens e place he => ⟨?_, fun tokens' htake => ?_⟩,
    fun tokens tokens' front rest rest' s h h' => parse_eq_of_same (same_of_eof h h'),
    fun front rest s => ?_⟩
  · have hlt := index_lt tokens
    rwa [he] at hlt
  · have hsame := same_of_take (congrArg (fun r => r.place.index) he) htake
    refine ⟨(parse_eq_of_same hsame).trans (by rw [parse, he]), ?_⟩
    rw [he] at hsame
    generalize Parser.program (Cursor.ofTokens tokens') = r' at hsame
    cases hsame with
    | error e hindex => exact ⟨_, rfl, hindex⟩
  · obtain ⟨closing, hclosing⟩ := Cursor.prefix_tokens_ofTokens (front ++ ⟨.eof, s⟩ :: rest)
    have hcut : (Cursor.ofTokens (front ++ ⟨.eof, s⟩ :: rest)).tokens =
        front ++ ⟨.eof, s⟩ :: (rest ++ closing) := by
      rw [← hclosing, List.append_assoc, List.cons_append]
    exact parse_eq_of_same (same_of_eof (Cursor.tokens_ofTokens rfl) hcut)

set_option maxRecDepth 4000 in
/-- The target of an assignment is judged at the token after the value, and whatever follows that
    token the error is the same. A brace after the end of the input is not looked at. -/
theorem parse_fails_fast_target :
    Parser.program (Cursor.ofTokens
        [⟨.text "a", ⟨0, 3⟩⟩, ⟨.symbol .assign, ⟨4, 5⟩⟩, ⟨.word "b", ⟨6, 7⟩⟩,
          ⟨.symbol .semicolon, ⟨7, 8⟩⟩, ⟨.eof, ⟨8, 8⟩⟩]) =
      .error ⟨.notAssignable, ⟨0, 5⟩⟩
        ⟨3, ⟨6, 7⟩, ⟨.symbol .semicolon, ⟨7, 8⟩⟩, [⟨.eof, ⟨8, 8⟩⟩]⟩ ∧
    parse
        [⟨.text "a", ⟨0, 3⟩⟩, ⟨.symbol .assign, ⟨4, 5⟩⟩, ⟨.word "b", ⟨6, 7⟩⟩,
          ⟨.symbol .semicolon, ⟨7, 8⟩⟩, ⟨.symbol .rightBrace, ⟨9, 10⟩⟩, ⟨.eof, ⟨10, 10⟩⟩] =
      .error ⟨.notAssignable, ⟨0, 5⟩⟩ ∧
    parse [⟨.word "b", ⟨0, 1⟩⟩, ⟨.eof, ⟨1, 1⟩⟩, ⟨.symbol .rightBrace, ⟨2, 3⟩⟩] =
      parse [⟨.word "b", ⟨0, 1⟩⟩, ⟨.eof, ⟨1, 1⟩⟩] := by
  have herror : Parser.program (Cursor.ofTokens
        [⟨.text "a", ⟨0, 3⟩⟩, ⟨.symbol .assign, ⟨4, 5⟩⟩, ⟨.word "b", ⟨6, 7⟩⟩,
          ⟨.symbol .semicolon, ⟨7, 8⟩⟩, ⟨.eof, ⟨8, 8⟩⟩]) =
      .error ⟨.notAssignable, ⟨0, 5⟩⟩
        ⟨3, ⟨6, 7⟩, ⟨.symbol .semicolon, ⟨7, 8⟩⟩, [⟨.eof, ⟨8, 8⟩⟩]⟩ := by
    cbv
  have hparse := (parse_fails_fast.1 _ _ _ herror).2
    [⟨.text "a", ⟨0, 3⟩⟩, ⟨.symbol .assign, ⟨4, 5⟩⟩, ⟨.word "b", ⟨6, 7⟩⟩,
      ⟨.symbol .semicolon, ⟨7, 8⟩⟩, ⟨.symbol .rightBrace, ⟨9, 10⟩⟩, ⟨.eof, ⟨10, 10⟩⟩] rfl
  have hcut := parse_fails_fast.2.1 [⟨.word "b", ⟨0, 1⟩⟩, ⟨.eof, ⟨1, 1⟩⟩]
    [⟨.word "b", ⟨0, 1⟩⟩, ⟨.eof, ⟨1, 1⟩⟩, ⟨.symbol .rightBrace, ⟨2, 3⟩⟩]
    [⟨.word "b", ⟨0, 1⟩⟩] [] _ ⟨1, 1⟩ rfl rfl
  exact ⟨herror, hparse.1, hcut⟩

end Program

end Respell
