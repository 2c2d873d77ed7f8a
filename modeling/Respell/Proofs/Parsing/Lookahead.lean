-- SUMMARY: The parser goes by the tokens it has read and the one after them, and by nothing else.
import Respell.Proofs.Parsing.Places
import Respell.Proofs.Parsing.Composition

/-!
# Looking ahead

Two cursors share some tokens if both have them next, whatever comes after. A parser is `Local` if
it treats such cursors alike as long as it stays among the shared tokens: it answers the same value
or makes the same complaint, at the same place. All that it may look at beside the tokens that it
reads is the token where it stops. The steps of a parser are local, and so is every production.
-/

namespace Respell

/-! ## Shared tokens -/

/-- The cursor of a reply. -/
def Reply.place {α : Type} : Reply α → Cursor
  | .ok _ next => next
  | .error _ place => place

/-- Two cursors have the tokens `ts` next; the first then goes on with `rest`, the second with
    `rest'`. -/
structure Cursor.Shares (ts rest rest' : List Token) (c c' : Cursor) : Prop where
  tokens : c.tokens = ts ++ rest
  tokens' : c'.tokens = ts ++ rest'
  previous : c'.previous = c.previous
  closed : c.Closed
  closed' : c'.Closed

/-- Two replies are the same if the first stays among the shared tokens. -/
inductive Reply.Agrees {α : Type} (rest rest' : List Token) : Reply α → Reply α → Prop where
  | ok {t : Token} {ts : List Token} {c c' : Cursor} (a : α) :
      c.Shares (t :: ts) rest rest' c' → Agrees rest rest' (.ok a c) (.ok a c')
  | error {t : Token} {ts : List Token} {c c' : Cursor} (e : ParseError) :
      c.Shares (t :: ts) rest rest' c' → Agrees rest rest' (.error e c) (.error e c')
  | past {r r' : Reply α} : r.place.tokens <:+ rest → Agrees rest rest' r r'

namespace Cursor.Shares

variable {t : Token} {ts rest rest' : List Token} {c c' : Cursor}

theorem current (h : c.Shares (t :: ts) rest rest' c') : c.current = t :=
  (List.cons.inj h.tokens).1

theorem current_eq (h : c.Shares (t :: ts) rest rest' c') : c'.current = c.current :=
  (List.cons.inj h.tokens').1.trans h.current.symm

theorem kind_eq (h : c.Shares (t :: ts) rest rest' c') : c'.kind = c.kind :=
  congrArg Token.kind h.current_eq

theorem advance (h : c.Shares (t :: ts) rest rest' c') (ht : t.kind.isEof = false) :
    c.advance.Shares ts rest rest' c'.advance := by
  have heof : c.kind.isEof = false := by rwa [kind, h.current]
  have heof' : c'.kind.isEof = false := by rwa [h.kind_eq]
  have htokens := h.tokens
  have htokens' := h.tokens'
  rw [h.closed.tokens_advance heof] at htokens
  rw [h.closed'.tokens_advance heof'] at htokens'
  have hprevious : c'.advance.previous = c.advance.previous := by
    rw [h.closed.previous_advance heof, h.closed'.previous_advance heof', h.current_eq]
  exact ⟨(List.cons.inj htokens).2, (List.cons.inj htokens').2, hprevious, h.closed.advance,
    h.closed'.advance⟩

/-- One token is read, and it is the same. -/
theorem agrees_advance {α : Type} (h : c.Shares (t :: ts) rest rest' c') (a : α) :
    Reply.Agrees rest rest' (.ok a c.advance) (.ok a c'.advance) := by
  cases ht : t.kind.isEof with
  | true =>
    have heof : c.kind.isEof = true := by rwa [kind, h.current]
    rw [advance_of_isEof heof, advance_of_isEof (h.kind_eq ▸ heof)]
    exact .ok a h
  | false =>
    have hadvance := h.advance ht
    cases ts with
    | nil => exact .past (hadvance.tokens ▸ List.suffix_refl rest)
    | cons u us => exact .ok a hadvance

end Cursor.Shares

theorem Cursor.tokens_advance_suffix (c : Cursor) : c.advance.tokens <:+ c.tokens := by
  unfold Cursor.advance
  split
  · exact List.suffix_refl _
  · next next later hl =>
    split
    · exact List.suffix_refl _
    · rw [tokens, tokens, hl]
      exact List.suffix_cons _ _

/-! ## Local parsers -/

namespace Parser

/-- The parser never goes back, and from cursors that share their next token it replies the same as
    long as it stays among the shared tokens. -/
structure Local {α : Type} (p : Parser α) : Prop where
  suffix : ∀ c, (p c).place.tokens <:+ c.tokens
  agrees : ∀ {rest rest' : List Token} {t : Token} {ts : List Token} {c c' : Cursor},
    c.Shares (t :: ts) rest rest' c' → (p c).Agrees rest rest' (p c')

namespace Local

variable {α β : Type}

theorem pure (a : α) : Local (pure a) :=
  ⟨fun c => List.suffix_refl c.tokens, fun h => .ok a h⟩

theorem bind {p : Parser β} {k : β → Parser α} (hp : Local p) (hk : ∀ b, Local (k b)) :
    Local (p >>= k) := by
  constructor
  · intro c
    have hsuffix := hp.suffix c
    change (Parser.bind p k c).place.tokens <:+ c.tokens
    unfold Parser.bind
    cases hpc : p c with
    | ok b mid =>
      rw [hpc] at hsuffix
      exact ((hk b).suffix mid).trans hsuffix
    | error e place =>
      rw [hpc] at hsuffix
      exact hsuffix
  · intro rest rest' t ts c c' h
    have hr := hp.agrees h
    change (Parser.bind p k c).Agrees rest rest' (Parser.bind p k c')
    unfold Parser.bind
    generalize p c = r, p c' = r' at hr
    cases hr with
    | ok b hmid => exact (hk b).agrees hmid
    | error e hplace => exact .error e hplace
    | past hpast =>
      refine .past ?_
      cases r with
      | ok b mid => exact ((hk b).suffix mid).trans hpast
      | error e place => exact hpast

theorem peek : Local peek := by
  refine ⟨fun c => List.suffix_refl c.tokens, fun {rest rest' t ts c c'} h => ?_⟩
  rw [Parser.peek, Parser.peek, h.current_eq]
  exact .ok c.current h

theorem previous : Local previous := by
  refine ⟨fun c => List.suffix_refl c.tokens, fun {rest rest' t ts c c'} h => ?_⟩
  rw [Parser.previous, Parser.previous, h.previous]
  exact .ok c.previous h

theorem next : Local next := by
  refine ⟨fun c => c.tokens_advance_suffix, fun {rest rest' t ts c c'} h => ?_⟩
  rw [Parser.next, Parser.next, h.current_eq]
  exact h.agrees_advance c.current

theorem failAt (complaint : Complaint) (span : Span) : Local (failAt complaint span : Parser α) :=
  ⟨fun c => List.suffix_refl c.tokens, fun h => .error ⟨complaint, span⟩ h⟩

theorem fail (complaint : Complaint) : Local (fail complaint : Parser α) := by
  refine ⟨fun c => List.suffix_refl c.tokens, fun {rest rest' t ts c c'} h => ?_⟩
  rw [Parser.fail, Parser.fail, h.current_eq]
  exact .error ⟨complaint, c.current.span⟩ h

theorem wanted (what : Wanted) : Local (wanted what : Parser α) := by
  refine ⟨fun c => List.suffix_refl c.tokens, fun {rest rest' t ts c c'} h => ?_⟩
  rw [Parser.wanted, Parser.wanted, h.kind_eq]
  exact (fail (.wanted what c.kind)).agrees h

theorem sees (s : Symbol) : Local (sees s) := by
  refine ⟨fun c => List.suffix_refl c.tokens, fun {rest rest' t ts c c'} h => ?_⟩
  rw [Parser.sees, Parser.sees, h.kind_eq]
  exact .ok _ h

theorem eat (s : Symbol) : Local (eat s) := by
  refine ⟨fun c => ?_, fun {rest rest' t ts c c'} h => ?_⟩
  · unfold Parser.eat
    split
    · exact c.tokens_advance_suffix
    · exact List.suffix_refl c.tokens
  · rw [Parser.eat, Parser.eat, h.kind_eq]
    split
    · exact h.agrees_advance true
    · exact .ok false h

theorem expect (s : Symbol) : Local (expect s) := by
  refine ⟨fun c => ?_, fun {rest rest' t ts c c'} h => ?_⟩
  · unfold Parser.expect
    split
    · exact c.tokens_advance_suffix
    · exact List.suffix_refl c.tokens
  · rw [Parser.expect, Parser.expect, h.kind_eq]
    split
    · rw [h.current_eq]
      exact h.agrees_advance c.current.span
    · exact (wanted (.symbol s)).agrees h

theorem sequential : Sequential Local where
  pure := Local.pure
  bind := Local.bind
  peek := Local.peek
  previous := Local.previous
  next := Local.next
  failAt := Local.failAt
  fail := Local.fail
  wanted := Local.wanted
  sees := Local.sees
  eat := Local.eat
  expect := Local.expect

end Local

/-! ## Statements -/

section Statements

variable {room : Nat} {statement : Parser Stmt}

-- By induction on one of the counts; a statement has a token, so it leaves fewer of them ahead.
/-- How many statements there may be has no bearing on the reply, as long as there may be one for
    each token ahead. -/
theorem statementsWithin_eq (hsound : StatementSound room statement) {stops : Kind → Bool}
    (heof : stops .eof = true) {c : Cursor} (hc : c.Closed) {n m : Nat} (hn : c.ahead.length ≤ n)
    (hm : c.ahead.length ≤ m) :
    statementsWithin statement stops n c = statementsWithin statement stops m c := by
  induction n generalizing m c with
  | zero =>
    have hnil : c.ahead = [] := List.length_eq_zero_iff.mp (Nat.le_zero.mp hn)
    have hstop : stops c.kind = true := by
      rw [Kind.eq_eof_of_isEof (Cursor.ahead_eq_nil_iff.mp hnil), heof]
    rw [statementsWithin_of_stop hstop, statementsWithin_of_stop hstop]
  | succ n ih =>
    cases hstop : stops c.kind with
    | true => rw [statementsWithin_of_stop hstop, statementsWithin_of_stop hstop]
    | false =>
      have hpos : 0 < c.ahead.length := by
        rw [List.length_pos_iff, ne_eq, Cursor.ahead_eq_nil_iff]
        intro hend
        rw [Kind.eq_eof_of_isEof hend, heof] at hstop
        cases hstop
      obtain ⟨m, rfl⟩ := Nat.exists_eq_add_one_of_ne_zero (by omega : m ≠ 0)
      rw [statementsWithin_of_other hstop, statementsWithin_of_other hstop]
      refine bind_eq_bind rfl fun first mid hmid => ?_
      have hmeets := hsound c hc
      rw [hmid] at hmeets
      obtain ⟨ks, hreads, hyields⟩ := hmeets
      obtain ⟨k, us, rfl, -⟩ := hyields.starts
      have hlength := hreads.length_le
      rw [List.length_cons] at hlength
      exact bind_eq_bind (ih hreads.1 (by omega) (by omega)) fun _ _ _ => rfl

theorem statements_of_stop {stops : Kind → Bool} {c : Cursor} (h : stops c.kind = true) :
    statements statement stops c = .ok [] c :=
  statementsWithin_of_stop h c.later.length

theorem statements_of_other (hsound : StatementSound room statement) {stops : Kind → Bool}
    (heof : stops .eof = true) {c : Cursor} (hc : c.Closed) (h : stops c.kind = false) :
    statements statement stops c =
      (do
        let first ← statement
        let rest ← statements statement stops
        return first :: rest : Parser (List Stmt)) c := by
  have hle := hc.length_ahead_le
  have hlarge := statementsWithin_eq hsound heof hc hle (Nat.le_succ_of_le hle)
  rw [statements, hlarge, statementsWithin_of_other h]
  refine bind_eq_bind rfl fun first mid hmid => bind_eq_bind ?_ fun _ _ _ => rfl
  have hmeets := hsound c hc
  rw [hmid] at hmeets
  obtain ⟨ks, hreads, -⟩ := hmeets
  have hlength := hreads.length_le
  exact statementsWithin_eq hsound heof hreads.1 (by omega) hreads.1.length_ahead_le

-- What follows the shared tokens may be longer in one list than in the other, and then the counts
-- differ. Both are enough, and so they are as good as the larger one.
theorem statements_local (hs : Local statement) (hsound : StatementSound room statement)
    {stops : Kind → Bool} (heof : stops .eof = true) : Local (statements statement stops) := by
  have hwithin := fun count => Local.sequential.statementsWithin hs stops count
  refine ⟨fun c => (hwithin _).suffix c, fun {_ _ _ _ c c'} h => ?_⟩
  have hle := h.closed.length_ahead_le
  have hle' := h.closed'.length_ahead_le
  have hc := statementsWithin_eq hsound heof h.closed hle
    (hle.trans (Nat.le_max_left c.later.length c'.later.length))
  have hc' := statementsWithin_eq hsound heof h.closed' hle'
    (hle'.trans (Nat.le_max_right c.later.length c'.later.length))
  rw [statements, statements, hc, hc']
  exact (hwithin _).agrees h

end Statements

theorem Local.compositional : Compositional Local where
  toSequential := Local.sequential
  statements hsound heof hs := statements_local hs hsound heof

end Parser

end Respell
