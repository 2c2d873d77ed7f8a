-- SUMMARY: A program after another one is read as if it stood alone.
import Respell.Proofs.Parsing.Lookahead
import Respell.Proofs.Parsing.Mirroring

/-!
# Programs put together

Some tokens that are a program by themselves, and whose last one closes a statement, are put before
others. They are still read as this program: where they end, no production looks at what follows,
save for an `else`. This is shown by comparing two runs, one in which the end of the input follows
and one in which the other tokens do; `Joins` says that a parser keeps them together. What comes
then is read from a cursor that stands further to the right, and that makes no difference.
-/

namespace Respell

/-! ## Finished tokens -/

/-- Whether a token closes a statement. -/
def Kind.closes (k : Kind) : Bool :=
  k.isSymbol .semicolon || k.isSymbol .rightBrace

theorem Kind.closes_of_inExpression {k : Kind} (h : k.inExpression = true) : k.closes = false := by
  cases k with
  | symbol s => cases s <;> first | rfl | cases h
  | _ => rfl

/-- The end of the input is not among the tokens, and the last of them, if there are any, closes a
    statement. -/
structure Finished (ts : List Token) : Prop where
  isEof : ∀ t ∈ ts, t.kind.isEof = false
  closes : ∀ t ∈ ts.getLast?, t.kind.closes = true

theorem Finished.suffix {ts us : List Token} (h : Finished ts) (hsuffix : us <:+ ts) :
    Finished us := by
  refine ⟨fun t ht => h.isEof t (hsuffix.subset ht), fun t ht => h.closes t ?_⟩
  obtain ⟨before, rfl⟩ := hsuffix
  rw [Option.mem_def] at ht ⊢
  rw [List.getLast?_append, ht]
  rfl

/-- The tokens do not go on with an `if` before them. -/
def Fresh (ts : List Token) : Prop :=
  ∀ t ∈ ts.head?, t.kind ≠ .keyword .elseWord

/-- Two cursors share tokens that are finished. For the first the input then ends, the second goes
    on. -/
structure Cursor.Nears (ts : List Token) (s : Span) (more : List Token) (c c' : Cursor) : Prop
    extends Cursor.Shares ts [⟨.eof, s⟩] more c c', Finished ts

namespace Cursor

theorem kind_of_tokens {c : Cursor} {s : Span} (h : c.tokens = [⟨.eof, s⟩]) : c.kind = .eof := by
  rw [kind, (List.cons.inj h).1]

theorem closed_of_tokens {c : Cursor} {s : Span} (h : c.tokens = [⟨.eof, s⟩]) : c.Closed := by
  refine ⟨c.current, List.mem_cons_self, ?_⟩
  rw [show c.current.kind = .eof from kind_of_tokens h]
  rfl

theorem tokens_of_suffix {c : Cursor} {t : Token} (h : c.tokens <:+ [t]) : c.tokens = [t] := by
  rw [List.suffix_cons_iff] at h
  exact h.resolve_right fun hnil => nomatch List.suffix_nil.mp hnil

namespace Nears

variable {t : Token} {ts more : List Token} {s : Span} {c c' : Cursor}

theorem isEof_eq (h : c.Nears (t :: ts) s more c') : c.kind.isEof = false := by
  rw [kind, h.current]
  exact h.isEof t List.mem_cons_self

theorem advance (h : c.Nears (t :: ts) s more c') : c.advance.Nears ts s more c'.advance :=
  ⟨h.toShares.advance (h.isEof t List.mem_cons_self), h.toFinished.suffix (List.suffix_cons t ts)⟩

theorem tokens_ne (h : c.Nears (t :: ts) s more c') (s' : Span) : c.tokens ≠ [⟨.eof, s'⟩] := by
  intro htokens
  have heof := h.isEof_eq
  rw [kind_of_tokens htokens] at heof
  cases heof

theorem ahead_eq (h : c.Nears ts s more c') : c.ahead = ts.map Token.kind := by
  change (c.tokens.map Token.kind).takeWhile _ = _
  have hall : ∀ k ∈ ts.map Token.kind, (!k.isEof) = true := by
    simpa using h.isEof
  rw [h.tokens, List.map_append, List.takeWhile_append_of_pos hall]
  simp [Kind.isEof]

end Nears

end Cursor

/-! ## Parsers that keep together -/

namespace Parser

section Rules

variable {α β : Type}

/-- At the end of the input the parser has no answer. -/
def Starves (p : Parser α) : Prop :=
  ∀ ⦃c after : Cursor⦄ ⦃s : Span⦄ ⦃a : α⦄, c.tokens = [⟨.eof, s⟩] → p c ≠ .ok a after

/-- The parser stops before it has read all of some finished tokens. -/
def Inside (p : Parser α) : Prop :=
  ∀ ⦃c c' after : Cursor⦄ ⦃t : Token⦄ ⦃ts : List Token⦄ ⦃s : Span⦄ ⦃more : List Token⦄ ⦃a : α⦄,
    c.Nears (t :: ts) s more c' → p c = .ok a after → after.tokens ≠ [⟨.eof, s⟩]

/-- What the parser answers if the input ends after finished tokens, it also answers if the input
    goes on, and at the same place. -/
def Joins (p : Parser α) : Prop :=
  ∀ ⦃c c' after : Cursor⦄ ⦃ts : List Token⦄ ⦃s : Span⦄ ⦃more : List Token⦄ ⦃a : α⦄,
    Fresh more → c.Nears ts s more c' → p c = .ok a after →
    ∃ us after', p c' = .ok a after' ∧ after.Nears us s more after'

/-- A parser that needs a token to start with, and keeps the two runs together. -/
structure Ends (p : Parser α) : Prop where
  starves : Starves p
  joins : Joins p

/-- A parser for a part of a statement that cannot be its end. -/
structure Inner (p : Parser α) : Prop where
  isLocal : Local p
  starves : Starves p
  inside : Inside p

theorem Local.tokens_of_eof {p : Parser α} (hp : Local p) {c after : Cursor} {s : Span} {a : α}
    (h : c.tokens = [⟨.eof, s⟩]) (hpc : p c = .ok a after) : after.tokens = [⟨.eof, s⟩] := by
  have hsuffix := hp.suffix c
  rw [hpc, h] at hsuffix
  exact Cursor.tokens_of_suffix hsuffix

/-- A local parser keeps the two runs together before their last shared token has been read. -/
theorem Local.nears {p : Parser α} (hp : Local p) {c c' after : Cursor} {t : Token}
    {ts more : List Token} {s : Span} {a : α} (h : c.Nears (t :: ts) s more c')
    (hpc : p c = .ok a after) (hne : after.tokens ≠ [⟨.eof, s⟩]) :
    ∃ u us after', p c' = .ok a after' ∧ after.Nears (u :: us) s more after' := by
  have hsuffix := hp.suffix c
  have hagrees := hp.agrees h.toShares
  rw [hpc] at hsuffix hagrees
  generalize p c' = r' at hagrees
  cases hagrees with
  | @ok u us _ after' _ hafter =>
    refine ⟨u, us, after', rfl, hafter, h.toFinished.suffix ?_⟩
    change after.tokens <:+ c.tokens at hsuffix
    rw [hafter.tokens, h.tokens] at hsuffix
    obtain ⟨before, hbefore⟩ := hsuffix
    rw [← List.append_assoc] at hbefore
    exact ⟨before, List.append_cancel_right hbefore⟩
  | past hpast => exact absurd (Cursor.tokens_of_suffix hpast) hne

theorem Starves.bind {p : Parser β} (hp : Starves p) (k : β → Parser α) : Starves (p >>= k) := by
  intro c after s a hc hok
  obtain ⟨b, mid, hpc, -⟩ := bind_eq_ok_iff.mp hok
  exact hp hc hpc

theorem Starves.bind_right {p : Parser β} {k : β → Parser α} (hp : Local p)
    (hk : ∀ b, Starves (k b)) : Starves (p >>= k) := by
  intro c after s a hc hok
  obtain ⟨b, mid, hpc, hkb⟩ := bind_eq_ok_iff.mp hok
  exact hk b (hp.tokens_of_eof hc hpc) hkb

theorem starves_expect (s : Symbol) : Starves (expect s) := by
  intro c after span a hc hok
  rw [expect, Cursor.kind_of_tokens hc] at hok
  cases hok

/-- What reads something cannot do so at the end of the input. -/
theorem starves_of_sound {p : Parser α} {room slack : Nat} {R : α → List Kind → Cursor → Prop}
    (hp : ∀ c, Sound p room slack c R) (hR : ∀ a ks after, R a ks after → ks ≠ []) :
    Starves p := by
  intro c after s a hc hok
  have hmeets := hp c (Cursor.closed_of_tokens hc)
  rw [hok] at hmeets
  obtain ⟨ks, hreads, hks⟩ := hmeets
  have hnil : c.ahead = [] := Cursor.ahead_eq_nil_iff.mpr (by rw [Cursor.kind_of_tokens hc]; rfl)
  have happend := hreads.2
  rw [hnil] at happend
  exact hR a ks after hks (List.append_eq_nil_iff.mp happend.symm).1

namespace Inside

theorem pure (a : α) : Inside (pure a) := by
  intro c c' after t ts s more b h hok
  cases hok
  exact h.tokens_ne s

theorem wanted (what : Wanted) : Inside (wanted what : Parser α) :=
  fun _ _ _ _ _ _ _ _ _ hok => nomatch hok

theorem peek_bind {k : Token → Parser α} (hk : ∀ t, Inside (k t)) : Inside (peek >>= k) :=
  fun _ _ _ _ _ _ _ _ h hok => hk _ h hok

end Inside

namespace Inner

-- Since `k` needs a token, `p` has left one for it.
theorem bind {p : Parser β} {k : β → Parser α} (hp : Local p) (hk : ∀ b, Inner (k b)) :
    Inner (p >>= k) := by
  refine ⟨.bind hp fun b => (hk b).isLocal, .bind_right hp fun b => (hk b).starves, ?_⟩
  intro c c' after t ts s more a h hok
  obtain ⟨b, mid, hpc, hkb⟩ := bind_eq_ok_iff.mp hok
  have hne : mid.tokens ≠ [⟨.eof, s⟩] := fun hmid => (hk b).starves hmid hkb
  obtain ⟨u, us, mid', -, hmid⟩ := hp.nears h hpc hne
  exact (hk b).inside hmid hkb

theorem bind_pure {p : Parser β} (hp : Inner p) (f : β → α) :
    Inner (p >>= fun b => Pure.pure (f b)) := by
  refine ⟨.bind hp.isLocal fun b => .pure (f b), hp.starves.bind _, ?_⟩
  intro c c' after t ts s more a h hok
  obtain ⟨b, mid, hpc, hkb⟩ := bind_eq_ok_iff.mp hok
  cases hkb
  exact hp.inside h hpc

theorem fail (complaint : Complaint) : Inner (fail complaint : Parser α) where
  isLocal := .fail complaint
  starves _ _ _ _ _ hok := nomatch hok
  inside _ _ _ _ _ _ _ _ _ hok := nomatch hok

theorem expect {s : Symbol} (hs : (Kind.symbol s).closes = false) : Inner (expect s) := by
  refine ⟨.expect s, starves_expect s, ?_⟩
  intro c c' after t ts span more a h hok hafter
  obtain ⟨hk, -, rfl⟩ := expect_eq_ok hok
  cases ts with
  | nil =>
    have hcloses := h.closes t rfl
    rw [← h.current, show c.current.kind = .symbol s from hk, hs] at hcloses
    cases hcloses
  | cons u us => exact h.advance.tokens_ne span hafter

end Inner

namespace Joins

theorem pure (a : α) : Joins (pure a) := by
  intro c c' after ts s more b _ h hok
  cases hok
  exact ⟨ts, c', rfl, h⟩

theorem bind {p : Parser β} {k : β → Parser α} (hp : Joins p) (hk : ∀ b, Joins (k b)) :
    Joins (p >>= k) := by
  intro c c' after ts s more a hmore h hok
  obtain ⟨b, mid, hpc, hkb⟩ := bind_eq_ok_iff.mp hok
  obtain ⟨us, mid', hpc', hmid⟩ := hp hmore h hpc
  obtain ⟨vs, after', hkb', hafter⟩ := hk b hmore hmid hkb
  exact ⟨vs, after', bind_eq_ok_iff.mpr ⟨b, mid', hpc', hkb'⟩, hafter⟩

theorem previous : Joins previous := by
  intro c c' after ts s more a _ h hok
  cases hok
  refine ⟨ts, c', ?_, h⟩
  rw [Parser.previous, h.previous]

end Joins

namespace Ends

/-- At the end of the input there is nothing to show. -/
theorem of_cons {p : Parser α} (hp : Starves p)
    (h : ∀ {c c' after : Cursor} {t : Token} {ts : List Token} {s : Span} {more : List Token}
      {a : α}, Fresh more → c.Nears (t :: ts) s more c' → p c = .ok a after →
      ∃ us after', p c' = .ok a after' ∧ after.Nears us s more after') : Ends p := by
  refine ⟨hp, fun c c' after ts s more a hmore hnears hok => ?_⟩
  cases ts with
  | nil => exact absurd hok (hp hnears.tokens)
  | cons t ts => exact h hmore hnears hok

theorem of_inner {p : Parser α} (hp : Inner p) : Ends p := by
  refine .of_cons hp.starves fun {c c' after t ts s more a} _ h hok => ?_
  obtain ⟨u, us, after', hok', hafter⟩ := hp.isLocal.nears h hok (hp.inside h hok)
  exact ⟨u :: us, after', hok', hafter⟩

/-- Only of what comes last it takes more than that it is local. -/
theorem bind {p : Parser β} {k : β → Parser α} (hp : Local p) (hk : ∀ b, Ends (k b)) :
    Ends (p >>= k) := by
  have hstarves : Starves (p >>= k) := .bind_right hp fun b => (hk b).starves
  refine .of_cons hstarves fun {c c' after t ts s more a} hmore h hok => ?_
  obtain ⟨b, mid, hpc, hkb⟩ := bind_eq_ok_iff.mp hok
  have hne : mid.tokens ≠ [⟨.eof, s⟩] := fun hmid => (hk b).starves hmid hkb
  obtain ⟨u, us, mid', hpc', hmid⟩ := hp.nears h hpc hne
  obtain ⟨vs, after', hkb', hafter⟩ := (hk b).joins hmore hmid hkb
  exact ⟨vs, after', bind_eq_ok_iff.mpr ⟨b, mid', hpc', hkb'⟩, hafter⟩

theorem bind_joins {p : Parser β} {k : β → Parser α} (hp : Ends p) (hk : ∀ b, Joins (k b)) :
    Ends (p >>= k) :=
  ⟨hp.starves.bind k, hp.joins.bind hk⟩

theorem bind_pure {p : Parser β} (hp : Ends p) (f : β → α) :
    Ends (p >>= fun b => Pure.pure (f b)) :=
  hp.bind_joins fun b => .pure (f b)

theorem expect (s : Symbol) : Ends (expect s) := by
  refine .of_cons (starves_expect s) fun {c c' after t ts span more a} _ h hok => ?_
  obtain ⟨hk, rfl, rfl⟩ := expect_eq_ok hok
  refine ⟨ts, c'.advance, ?_, h.advance⟩
  rw [Parser.expect, if_pos (Kind.isSymbol_iff.mpr (h.kind_eq.trans hk)), h.current_eq]

/-- A separator that may be left out is read if it is the last token. -/
theorem eat_bind {p : Parser β} {s : Symbol} {k : β → Bool → Parser α} (hp : Inner p)
    (htrue : ∀ b, Joins (k b true)) (hlocal : ∀ b, Local (k b false))
    (hinside : ∀ b, Inside (k b false)) : Ends (p >>= fun b => eat s >>= k b) := by
  refine .of_cons (hp.starves.bind _) fun {c c' after t ts span more a} hmore h hok => ?_
  obtain ⟨b, mid, hpc, hkb⟩ := bind_eq_ok_iff.mp hok
  obtain ⟨u, us, mid', hpc', hmid⟩ := hp.isLocal.nears h hpc (hp.inside h hpc)
  suffices hrest : ∃ vs after', (eat s >>= k b) mid' = .ok a after' ∧
      after.Nears vs span more after' by
    obtain ⟨vs, after', hkb', hafter⟩ := hrest
    exact ⟨vs, after', bind_eq_ok_iff.mpr ⟨b, mid', hpc', hkb'⟩, hafter⟩
  rw [Parser.eat_bind] at hkb
  rw [Parser.eat_bind, hmid.kind_eq]
  split at hkb
  · next hs =>
    rw [if_pos hs]
    exact htrue b hmore hmid.advance hkb
  · next hs =>
    rw [if_neg hs]
    obtain ⟨v, vs, after', hkb', hafter⟩ := (hlocal b).nears hmid hkb (hinside b hmid hkb)
    exact ⟨v :: vs, after', hkb', hafter⟩

end Ends

end Rules

/-! ## Parts of statements -/

section Statements

variable {room : Nat} {statement : Parser Stmt} {elseIf : Parser (Expr × Block × Otherwise)}

-- Otherwise the token that closes the statement would be part of the expression.
theorem expression_inner (room : Nat) : Inner (expression room) := by
  refine ⟨Local.sequential.expression room, starves_of_sound (expression_sound room) ?_, ?_⟩
  · rintro e ks after ⟨hd, -⟩ rfl
    obtain ⟨k, us, hnil, -⟩ := hd.starts
    cases hnil
  · intro c c' after t ts s more e h hok hafter
    have hmeets := expression_sound room c h.closed
    rw [hok] at hmeets
    obtain ⟨ks, hreads, hd, -⟩ := hmeets
    have hnil : after.ahead = [] :=
      Cursor.ahead_eq_nil_iff.mpr (by rw [Cursor.kind_of_tokens hafter]; rfl)
    have hks : (t :: ts).map Token.kind = ks := by
      rw [← h.ahead_eq, hreads.2, hnil, List.append_nil]
    have hlast := List.getLast?_eq_some_getLast (List.cons_ne_nil t ts)
    have hmem := List.mem_map_of_mem (f := Token.kind) (List.mem_of_getLast? hlast)
    have hcloses := h.closes _ hlast
    rw [Kind.closes_of_inExpression (hd.inExpression _ (hks ▸ hmem))] at hcloses
    cases hcloses

theorem binding_inner : Inner (binding room) := by
  refine .bind .next fun start => .bind .peek fun t => ?_
  obtain ⟨kind, span⟩ := t
  cases kind with
  | word x =>
    refine .bind .next fun _ => .bind (.expect .assign) fun _ => ?_
    exact (expression_inner room).bind_pure _
  | _ => exact .fail (.wantedName _)

theorem parenthesised_inner : Inner (parenthesised room) := by
  refine .bind .next fun _ => .bind (.expect .leftParen) fun _ => ?_
  refine .bind (Local.sequential.expression room) fun inner => ?_
  exact (Inner.expect rfl).bind_pure _

theorem block_ends (hs : Local statement) (hsound : StatementSound room statement) :
    Ends (block statement) := by
  refine .bind (.expect .leftBrace) fun start => ?_
  refine .bind (statements_local hs hsound rfl) fun inner => ?_
  exact (Ends.expect .rightBrace).bind_pure _

theorem body_ends (hs : Local statement) (hsound : StatementSound room statement)
    (he : Ends statement) : Ends (body statement) := by
  refine .bind (.sees .leftBrace) fun seen => ?_
  cases seen with
  | true => exact block_ends hs hsound
  | false =>
    refine .bind .peek fun first => he.bind_joins fun only => ?_
    exact Joins.previous.bind fun last => .pure _

-- Where the tokens end, no `else` follows in either run.
theorem otherwise_joins (hs : Local statement) (hsound : StatementSound room statement)
    (he : Ends elseIf) : Joins (otherwise statement elseIf) := by
  intro c c' after ts s more o hmore h hok
  by_cases hk : c.kind = .keyword .elseWord
  · cases ts with
    | nil => cases hk.symm.trans (Cursor.kind_of_tokens h.tokens)
    | cons t ts =>
      have helse : c.current.kind.isKeyword .elseWord = true := Kind.isKeyword_iff.mpr hk
      have helse' : c'.current.kind.isKeyword .elseWord = true := h.current_eq ▸ helse
      rw [otherwise, peek_bind, if_pos helse] at hok
      rw [otherwise, peek_bind, if_pos helse']
      refine (Ends.bind .next fun _ => .bind .peek fun t => ?_).joins hmore h hok
      split
      · exact he.bind_pure _
      · exact (block_ends hs hsound).bind_pure _
  · rw [otherwise_of_other hk] at hok
    cases hok
    refine ⟨ts, c', otherwise_of_other ?_, h⟩
    cases ts with
    | nil => exact hmore c'.current (congrArg List.head? h.tokens'.symm)
    | cons t ts => exact h.kind_eq ▸ hk

theorem branch_ends (hs : Local statement) (hsound : StatementSound room statement)
    (he : Ends elseIf) : Ends (branch room statement elseIf) := by
  rw [branch_eq]
  refine .bind Local.sequential.parenthesised fun condition => ?_
  refine (block_ends hs hsound).bind_joins fun consequence => ?_
  exact (otherwise_joins hs hsound he).bind fun alternative => .pure _

theorem forLoop_ends (hs : Local statement) (hsound : StatementSound room statement)
    (he : Ends statement) : Ends (forLoop room statement) := by
  refine .bind .next fun _ => .bind (.expect .leftParen) fun _ => ?_
  refine .bind Local.sequential.init fun start => .bind (.expect .semicolon) fun _ => ?_
  refine .bind (Local.sequential.clause .semicolon) fun condition => ?_
  refine .bind (.expect .semicolon) fun _ => ?_
  refine .bind (Local.sequential.clause .rightParen) fun increment => ?_
  refine .bind (.expect .rightParen) fun _ => ?_
  exact (body_ends hs hsound he).bind_pure _

theorem expressionStatement_ends : Ends (expressionStatement room) := by
  refine .eat_bind (expression_inner room) (fun value => .pure _) (fun value => ?_) fun value => ?_
  · refine .bind .peek fun t => ?_
    split
    · exact .pure _
    · exact .wanted (.symbol .semicolon)
  · refine .peek_bind fun t => ?_
    split
    · exact .pure _
    · exact .wanted (.symbol .semicolon)

theorem statementAt_ends (hs : Local statement) (hsound : StatementSound room statement)
    (he : Ends statement) (helse : Ends elseIf) :
    Ends (statementAt room statement elseIf) := by
  have hexpr : Ends (expressionStatement room) := expressionStatement_ends
  refine .bind .peek fun t => ?_
  obtain ⟨kind, span⟩ := t
  cases kind with
  | keyword role =>
    cases role with
    | letWord =>
      exact .eat_bind binding_inner (fun b => .pure _) (fun b => .pure _) fun b => .pure _
    | printWord =>
      exact .eat_bind parenthesised_inner (fun e => .pure _) (fun e => .pure _) fun e => .pure _
    | ifWord => exact (branch_ends hs hsound helse).bind_pure _
    | whileWord =>
      refine .bind Local.sequential.parenthesised fun condition => ?_
      exact (body_ends hs hsound he).bind_pure _
    | forWord => exact forLoop_ends hs hsound he
    | _ => exact hexpr
  | symbol s =>
    cases s with
    | leftBrace => exact (block_ends hs hsound).bind_pure _
    | _ => exact hexpr
  | _ => exact hexpr

end Statements

theorem statement_elseIf_ends (room : Nat) : Ends (statement room) ∧ Ends (elseIf room) := by
  induction room with
  | zero => exact ⟨.of_inner (.fail (.tooDeep .statement)), .of_inner (.fail (.tooDeep .statement))⟩
  | succ room ih =>
    have hlocal := (Local.compositional.statement_elseIf room).1
    have hsound := (statement_elseIf_sound room).1
    exact ⟨statementAt_ends hlocal hsound ih.1 ih.2, branch_ends hlocal hsound ih.2⟩

-- By induction on the statements that the finished tokens are read as.
/-- The statements of finished tokens are read, and then those that follow. -/
theorem statements_join {room : Nat} {statement : Parser Stmt} (he : Ends statement)
    (hsound : StatementSound room statement) {c c' after : Cursor} {ts more : List Token}
    {s : Span} {ss : List Stmt} (hmore : Fresh more) (h : c.Nears ts s more c')
    (hok : statements statement Kind.isEof c = .ok ss after) :
    ∃ mid, mid.tokens = more ∧
      statements statement Kind.isEof c' =
        (do return ss ++ (← statements statement Kind.isEof) : Parser (List Stmt)) mid := by
  induction ss generalizing c c' ts with
  | nil =>
    cases ts with
    | nil =>
      refine ⟨c', h.tokens', ?_⟩
      change _ = Parser.bind (statements statement Kind.isEof) _ c'
      unfold Parser.bind
      cases statements statement Kind.isEof c' <;> rfl
    | cons t ts =>
      rw [statements_of_other hsound rfl h.closed h.isEof_eq] at hok
      obtain ⟨first, mid, -, hrest⟩ := bind_eq_ok_iff.mp hok
      obtain ⟨rest, last, -, hnil⟩ := bind_eq_ok_iff.mp hrest
      cases hnil
  | cons first rest ih =>
    cases ts with
    | nil =>
      rw [statements_of_stop (by rw [Cursor.kind_of_tokens h.tokens]; rfl)] at hok
      cases hok
    | cons t ts =>
      rw [statements_of_other hsound rfl h.closed h.isEof_eq] at hok
      obtain ⟨_, mid, hfirst, hrest⟩ := bind_eq_ok_iff.mp hok
      obtain ⟨_, last, hrest, hcons⟩ := bind_eq_ok_iff.mp hrest
      cases hcons
      obtain ⟨us, mid', hfirst', hmid⟩ := he.joins hmore h hfirst
      obtain ⟨start, hstart, hrest'⟩ := ih hmid hrest
      refine ⟨start, hstart, ?_⟩
      have hk' : c'.kind.isEof = false := h.kind_eq ▸ h.isEof_eq
      rw [statements_of_other hsound rfl h.closed' hk']
      simp only [Bind.bind, Parser.bind, hfirst', hrest']
      cases statements statement Kind.isEof start <;> rfl

end Parser

/-! ## Programs -/

theorem Cursor.nears_ofTokens {front rest body : List Token} {s s' : Span} (h : Finished front)
    (hrest : rest = body ++ [⟨.eof, s'⟩]) :
    (ofTokens (front ++ [⟨.eof, s⟩])).Nears front s rest (ofTokens (front ++ rest)) := by
  have hall : front ++ rest = (front ++ body) ++ [⟨.eof, s'⟩] := by rw [hrest, List.append_assoc]
  refine ⟨⟨tokens_ofTokens rfl, tokens_ofTokens hall, ?_, closed_ofTokens _, closed_ofTokens _⟩, h⟩
  rw [previous_ofTokens, previous_ofTokens]

/-- What a reply says, without its cursor. -/
def Reply.toExcept {α : Type} : Reply α → Except ParseError α
  | .ok a _ => .ok a
  | .error e _ => .error e

theorem Program.parse_eq (tokens : List Token) :
    parse tokens = (Parser.statements (Parser.statement maxNesting) Kind.isEof
      (Cursor.ofTokens tokens)).toExcept.map Program.mk := by
  unfold parse Parser.program
  simp only [Bind.bind, Parser.bind]
  cases Parser.statements (Parser.statement maxNesting) Kind.isEof (Cursor.ofTokens tokens) <;> rfl

-- Nothing has been read yet, so the span before the cursor is of no use to anyone.
/-- Statements are read in the same way wherever their tokens stand. -/
theorem Parser.toExcept_statements {c c' : Cursor} (hc : c.Closed) (h : c'.tokens = c.tokens) :
    (statements (statement maxNesting) Kind.isEof c').toExcept =
      (statements (statement maxNesting) Kind.isEof c).toExcept := by
  have hmirrors : c.Mirrors .same c.ahead.length c' := by
    obtain ⟨hcurrent, hlater⟩ := List.cons.inj h
    refine ⟨?_, ?_, hc, Nat.le_refl _, fun hlt => absurd hlt (Nat.lt_irrefl _)⟩
    · rw [hcurrent, Token.relabel_same]
    · rw [hlater, List.map_congr_left fun t _ => Token.relabel_same t, List.map_id']
  have hmerges : Labels.same.Merges := fun _ _ => rfl
  have hs := (statement_elseIf_tracks hmerges c.ahead.length maxNesting).1
  have hreply := statements_tracks hs (Kind.isEof_relabel .same) hmirrors
  generalize statements (statement maxNesting) Kind.isEof c = r,
    statements (statement maxNesting) Kind.isEof c' = r' at hreply
  cases hreply with
  | ok ss _ => rw [Stmt.relabelAll_same]; rfl
  | error e => rw [ParseError.relabel_same]; rfl

/-- Finished tokens that are a program, and after them others that do not go on with it, are read as
    the one program and then the other. What is wrong with the others alone is wrong with them. -/
theorem Program.parse_append (front rest body : List Token) (s s' : Span) (p : Program)
    (hfront : Finished front) (hp : Program.parse (front ++ [⟨.eof, s⟩]) = .ok p)
    (hrest : rest = body ++ [⟨.eof, s'⟩]) (hfresh : Fresh rest) :
    Program.parse (front ++ rest) =
      (Program.parse rest).map fun q => ⟨p.statements ++ q.statements⟩ := by
  have hends := (Parser.statement_elseIf_ends maxNesting).1
  have hsound := (Parser.statement_elseIf_sound maxNesting).1
  rw [parse_eq] at hp
  cases hfirst : Parser.statements (Parser.statement maxNesting) Kind.isEof
      (Cursor.ofTokens (front ++ [⟨.eof, s⟩])) with
  | error e place =>
    rw [hfirst] at hp
    cases hp
  | ok ss after =>
    rw [hfirst] at hp
    cases hp
    obtain ⟨mid, hmid, hjoin⟩ :=
      Parser.statements_join hends hsound hfresh (Cursor.nears_ofTokens hfront hrest) hfirst
    have htokens := hmid.trans (Cursor.tokens_ofTokens hrest).symm
    have hsame := Parser.toExcept_statements (Cursor.closed_ofTokens rest) htokens
    rw [parse_eq, parse_eq, hjoin, ← hsame]
    simp only [Bind.bind, Parser.bind]
    cases Parser.statements (Parser.statement maxNesting) Kind.isEof mid <;> rfl

set_option maxRecDepth 4000 in
/-- A sign after an `if` starts a statement of its own. -/
theorem Program.parse_append_sign :
    Program.parse
      ([⟨.keyword .ifWord, ⟨0, 2⟩⟩, ⟨.symbol .leftParen, ⟨2, 3⟩⟩, ⟨.word "x", ⟨3, 4⟩⟩,
        ⟨.symbol .rightParen, ⟨4, 5⟩⟩, ⟨.symbol .leftBrace, ⟨5, 6⟩⟩,
        ⟨.symbol .rightBrace, ⟨6, 7⟩⟩] ++
      [⟨.symbol .minus, ⟨7, 8⟩⟩, ⟨.word "y", ⟨8, 9⟩⟩, ⟨.eof, ⟨9, 9⟩⟩]) =
    .ok ⟨[.branch (.name "x" ⟨3, 4⟩) (.mk [] ⟨5, 7⟩) .nothing,
      .expr (.unary .negate (.name "y" ⟨8, 9⟩) ⟨7, 9⟩)]⟩ := by
  have hif : Program.parse
      ([⟨.keyword .ifWord, ⟨0, 2⟩⟩, ⟨.symbol .leftParen, ⟨2, 3⟩⟩, ⟨.word "x", ⟨3, 4⟩⟩,
        ⟨.symbol .rightParen, ⟨4, 5⟩⟩, ⟨.symbol .leftBrace, ⟨5, 6⟩⟩,
        ⟨.symbol .rightBrace, ⟨6, 7⟩⟩] ++ [⟨.eof, ⟨7, 7⟩⟩]) =
      .ok ⟨[.branch (.name "x" ⟨3, 4⟩) (.mk [] ⟨5, 7⟩) .nothing]⟩ := by
    cbv
  have hsign : Program.parse [⟨.symbol .minus, ⟨7, 8⟩⟩, ⟨.word "y", ⟨8, 9⟩⟩, ⟨.eof, ⟨9, 9⟩⟩] =
      .ok ⟨[.expr (.unary .negate (.name "y" ⟨8, 9⟩) ⟨7, 9⟩)]⟩ := by
    cbv
  have hjoin := Program.parse_append _ [⟨.symbol .minus, ⟨7, 8⟩⟩, ⟨.word "y", ⟨8, 9⟩⟩,
    ⟨.eof, ⟨9, 9⟩⟩] [⟨.symbol .minus, ⟨7, 8⟩⟩, ⟨.word "y", ⟨8, 9⟩⟩] _ _ _
    ⟨by simp [Kind.isEof], by simp [Kind.closes, Kind.isSymbol]⟩ hif rfl (by simp [Fresh])
  rw [hsign] at hjoin
  exact hjoin

end Respell
