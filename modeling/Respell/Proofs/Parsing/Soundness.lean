-- SUMMARY: What the parser accepts has a derivation, and it finds depth only for want of room.
import Respell.Proofs.Parsing.Productions

/-!
# Soundness

Every production is specified by what it reads: the tokens between the two cursors derive its tree,
and the next token cannot go on with it. The same induction bounds the complaints about depth: each
level of nesting takes a token, so where there is room for all tokens no such complaint arises.
-/

namespace Respell.Parser

open Grammar

/-- From a closed cursor, what a parser answers stands in `R` to the tokens it has read and to the
    cursor after them, and it finds the tree too deep only if there is less room than there are
    tokens ahead, up to some slack. -/
def Sound {α : Type} (p : Parser α) (room slack : Nat) (c : Cursor)
    (R : α → List Kind → Cursor → Prop) : Prop :=
  c.Closed → (p c).Meets (fun a after => ∃ ks, c.Reads ks after ∧ R a ks after)
    fun err => err.TooDeep → room < c.ahead.length + slack

namespace Sound

variable {α β : Type} {room slack : Nat} {c : Cursor} {R : α → List Kind → Cursor → Prop}

theorem congr {p q : Parser α} (h : p c = q c) (hq : Sound q room slack c R) :
    Sound p room slack c R :=
  fun hc => h ▸ hq hc

theorem mono {p : Parser α} {slack' : Nat} {S : α → List Kind → Cursor → Prop}
    (h : Sound p room slack c R) (hs : slack ≤ slack')
    (hS : ∀ a ks after, R a ks after → S a ks after) : Sound p room slack' c S := by
  intro hc
  refine (h hc).mono ?_ fun err he ht => ?_
  · rintro a after ⟨ks, hr, ha⟩
    exact ⟨ks, hr, hS a ks after ha⟩
  · have := he ht
    omega

/-- A level of nesting is paid for by a token. -/
theorem deeper {p : Parser α} (h : Sound p room slack c R) :
    Sound p (room + 1) (slack + 1) c R := by
  intro hc
  refine (h hc).mono (fun _ _ ha => ha) fun err he ht => ?_
  have := he ht
  omega

theorem pure {a : α} (h : R a [] c) : Sound (pure a) room slack c R :=
  fun hc => ⟨[], hc.reads_nil, h⟩

theorem fail {p : Parser α} {err : ParseError} {place : Cursor} (h : p c = .error err place)
    (hother : ∀ what, err.complaint ≠ .tooDeep what) : Sound p room slack c R := by
  intro _
  rw [h]
  rintro ⟨what, hwhat⟩
  exact absurd hwhat (hother what)

/-- Every token that has been read is one more that a complaint about depth can count on. -/
theorem bind {p : Parser β} {f : β → Parser α} {S : β → List Kind → Cursor → Prop}
    (hp : Sound p room slack c S)
    (hf : ∀ b ks mid, c.Reads ks mid → S b ks mid →
      Sound (f b) room (slack + ks.length) mid fun a ls after => R a (ks ++ ls) after) :
    Sound (p >>= f) room slack c R := by
  intro hc
  rw [meets_bind]
  refine (hp hc).mono ?_ fun err he => he
  rintro b mid ⟨ks, hr, hb⟩
  have hlen := hr.length_le
  refine (hf b ks mid hr hb hr.1).mono ?_ fun err he ht => ?_
  · rintro a after ⟨ls, hr', ha⟩
    exact ⟨ks ++ ls, hr.trans hr', ha⟩
  · have := he ht
    omega

/-- What comes second reads nothing. -/
theorem bind_pure {p : Parser β} {f : β → α} {S : β → List Kind → Cursor → Prop}
    (hp : Sound p room slack c S) (hf : ∀ b ks after, S b ks after → R (f b) ks after) :
    Sound (p >>= fun b => Pure.pure (f b)) room slack c R := by
  refine hp.bind fun b ks mid _ hb => pure ?_
  rw [List.append_nil]
  exact hf b ks mid hb

theorem peek_bind {f : Token → Parser α} (h : Sound (f c.current) room slack c R) :
    Sound (peek >>= f) room slack c R :=
  congr rfl h

theorem next {k : Kind} (hk : c.kind = k) (heof : k.isEof = false) :
    Sound next room slack c fun t ks after => t = c.current ∧ ks = [k] ∧ after = c.advance :=
  fun hc => ⟨[k], hk ▸ hc.reads_advance (hk ▸ heof), rfl, rfl, rfl⟩

theorem next_bind {k : Kind} {f : Token → Parser α} (hk : c.kind = k) (heof : k.isEof = false)
    (h : Sound (f c.current) room (slack + 1) c.advance fun a ls after => R a (k :: ls) after) :
    Sound (Parser.next >>= f) room slack c R := by
  refine (next hk heof).bind ?_
  rintro t ks mid - ⟨rfl, rfl, rfl⟩
  exact h

theorem expect_bind {s : Symbol} {f : Span → Parser α}
    (h : Sound (f c.current.span) room (slack + 1) c.advance fun a ls after =>
      R a (.symbol s :: ls) after) : Sound (expect s >>= f) room slack c R := by
  intro hc
  rw [meets_bind, meets_expect]
  refine ⟨fun hk => ?_, fun _ ⟨_, ht⟩ => nomatch ht⟩
  exact meets_bind.mp (next_bind (f := fun t => f t.span) hk rfl h hc)

theorem eat_bind {s : Symbol} {f : Bool → Parser α}
    (htrue : Sound (f true) room (slack + 1) c.advance fun a ls after =>
      R a (.symbol s :: ls) after)
    (hfalse : c.kind ≠ .symbol s → Sound (f false) room slack c R) :
    Sound (eat s >>= f) room slack c R := by
  intro hc
  rw [meets_bind, meets_eat]
  refine ⟨fun hk => ?_, fun hne => hfalse hne hc⟩
  exact meets_bind.mp (next_bind (f := fun _ => f true) hk rfl htrue hc)

end Sound

/-! ## Expressions -/

/-- The tokens of an expression that is read to its end. -/
def ReadsExpression (room : Nat) (e : Expr) (ks : List Kind) (after : Cursor) : Prop :=
  Derives room .expression e ks ∧ after.kind.joins = false

/-- The tokens of an operation that is read to its end. -/
def ReadsOperation (room : Nat) (category : Category) (ls : List Level) (e : Expr)
    (ks : List Kind) (after : Cursor) : Prop :=
  Derives room category e ks ∧ ∀ l ∈ ls, l.operator? after.kind = none

/-- The productions of expressions are sound with the given room. -/
structure ExpressionsSound (room : Nat) : Prop where
  primary : ∀ c, Sound (primary room) room 0 c fun e ks _ => Derives room .primary e ks
  operation : ∀ ls c, Sound (operation room ls) room 0 c (ReadsOperation room (.operation ls) ls)
  chain : ∀ l ls left c, (∀ l' ∈ ls, l'.operator? c.kind = none) →
    Sound (chain room l ls left) room 0 c (ReadsOperation room (.rest l ls left) (l :: ls))
  assignment : ∀ c, Sound (assignment room) room 0 c fun e ks after =>
    Derives room .assignment e ks ∧ after.kind.joins = false

theorem joins_eq_false {k : Kind} (hassign : k ≠ .symbol .assign)
    (hop : ∀ l ∈ Level.all, l.operator? k = none) : k.joins = false := by
  have h : k.isSymbol .assign = false := by simpa [← Bool.not_eq_true] using hassign
  simp only [Kind.joins, h, Bool.false_or, List.any_eq_false]
  intro l hl
  simp [hop l hl]

theorem expression_sound_zero (c : Cursor) :
    Sound (expression 0) 0 1 c (ReadsExpression 0) := by
  intro _
  rw [expression, meets_tooDeep]
  omega

theorem expression_sound_succ {room : Nat} (h : ExpressionsSound room) (c : Cursor) :
    Sound (expression (room + 1)) (room + 1) 1 c (ReadsExpression (room + 1)) := by
  refine .congr (by rw [expression]) ((h.assignment c).deeper.mono (Nat.le_refl _) ?_)
  rintro e ks after ⟨hd, hj⟩
  exact ⟨.expression (room_succ room) hd, hj⟩

theorem unary_sound {room : Nat} (h : ∀ inner, room = inner + 1 → ExpressionsSound inner)
    {c : Cursor} {op : UnaryOp} (hop : c.kind.unary? = some op) (start : Span) :
    Sound (unary room op start) room 0 c fun e ks _ => Derives room .primary e ks := by
  have heof := Kind.isEof_of_unary? hop
  cases room with
  | zero =>
    refine .congr unary_zero (.next_bind rfl heof fun _ => ?_)
    rw [meets_tooDeep]
    omega
  | succ inner =>
    refine .congr unary_succ (.next_bind rfl heof ?_)
    refine ((h inner rfl).primary _).deeper.bind_pure ?_
    intro e ks mid hd
    exact .unary (room_succ inner) hop hd

theorem primary_sound {room : Nat} (h : ∀ inner, room = inner + 1 → ExpressionsSound inner)
    (hexpr : ∀ c, Sound (expression room) room 1 c (ReadsExpression room)) (c : Cursor) :
    Sound (primary room) room 0 c fun e ks _ => Derives room .primary e ks := by
  cases ha : c.kind.atom? c.current.span with
  | some e =>
    exact .congr (primary_of_atom ha) (.next_bind rfl (Kind.isEof_of_atom? ha) (.pure (.atom ha)))
  | none =>
  cases hu : c.kind.unary? with
  | some op => exact .congr (primary_of_unary hu) (unary_sound h hu c.current.span)
  | none =>
  by_cases hp : c.kind = .symbol .leftParen
  · refine .congr (primary_of_leftParen hp) (.next_bind hp rfl (.bind (hexpr _) ?_))
    rintro e ks mid - ⟨hd, -⟩
    exact .expect_bind (.pure (.paren hd))
  · exact .fail (primary_of_other ha hp hu) nofun

theorem chain_sound {room : Nat} (h : ∀ inner, room = inner + 1 → ExpressionsSound inner)
    (l : Level) (ls : List Level) (left : Expr) {c : Cursor}
    (hls : ∀ l' ∈ ls, l'.operator? c.kind = none) :
    Sound (chain room l ls left) room 0 c (ReadsOperation room (.rest l ls left) (l :: ls)) := by
  cases hop : l.operator? c.kind with
  | none => exact .congr (chain_of_none hop) (.pure ⟨.stop, List.forall_mem_cons.mpr ⟨hop, hls⟩⟩)
  | some op =>
  have heof := Kind.isEof_of_operator? hop
  cases room with
  | zero =>
    refine .congr (chain_zero hop) fun hc => ?_
    have hlen := (hc.reads_advance heof).length_le
    rw [meets_tooDeep]
    simp only [List.length_singleton] at hlen
    omega
  | succ inner =>
    have hinner := h inner rfl
    refine .congr (chain_succ hop) (.next_bind rfl heof (.bind (hinner.operation ls _).deeper ?_))
    rintro b us mid - ⟨hb, hmid⟩
    refine (hinner.chain l ls _ mid hmid).deeper.mono (by omega) ?_
    rintro e vs after ⟨hd, hafter⟩
    exact ⟨.more (room_succ inner) hop hb hd, hafter⟩

theorem operation_sound {room : Nat}
    (hprimary : ∀ c, Sound (primary room) room 0 c fun e ks _ => Derives room .primary e ks)
    (h : ∀ inner, room = inner + 1 → ExpressionsSound inner) (ls : List Level) (c : Cursor) :
    Sound (operation room ls) room 0 c (ReadsOperation room (.operation ls) ls) := by
  induction ls generalizing c with
  | nil =>
    refine .congr (by rw [operation]) ((hprimary c).mono (Nat.le_refl _) ?_)
    intro e ks after hd
    exact ⟨.primary hd, by simp⟩
  | cons l ls ih =>
    refine .congr (by rw [operation]) (.bind (ih c) ?_)
    rintro a ts mid - ⟨ha, hmid⟩
    refine (chain_sound h l ls a hmid).mono (by omega) ?_
    rintro e us after ⟨hd, hafter⟩
    exact ⟨.chain ha hd, hafter⟩

theorem assignment_sound {room : Nat}
    (hoperation : ∀ c, Sound (operation room Level.all) room 0 c
      (ReadsOperation room (.operation Level.all) Level.all))
    (hexpr : ∀ c, Sound (expression room) room 1 c (ReadsExpression room)) (c : Cursor) :
    Sound (assignment room) room 0 c fun e ks after =>
      Derives room .assignment e ks ∧ after.kind.joins = false := by
  refine .congr (by rw [assignment]) (.bind (hoperation c) ?_)
  rintro target ts mid - ⟨ht, hmid⟩
  refine .peek_bind (.eat_bind ?_ fun hne => ?_)
  · rw [if_pos rfl]
    refine .bind ((hexpr _).mono (by omega) fun _ _ _ hv => hv) ?_
    rintro v us after - ⟨hv, hj⟩
    cases target with
    | name x s => exact .pure ⟨by simpa using .assign ht hv, hj⟩
    | _ => exact .fail rfl nofun
  · exact .pure ⟨by simpa using .operation ht, joins_eq_false hne hmid⟩

/-- One level of room more. -/
theorem ExpressionsSound.of_inner {room : Nat}
    (h : ∀ inner, room = inner + 1 → ExpressionsSound inner)
    (hexpr : ∀ c, Sound (expression room) room 1 c (ReadsExpression room)) :
    ExpressionsSound room :=
  have hprimary := primary_sound h hexpr
  have hoperation := operation_sound hprimary h
  ⟨hprimary, hoperation, fun l ls left _ hls => chain_sound h l ls left hls,
    assignment_sound (hoperation Level.all) hexpr⟩

theorem expressionsSound (room : Nat) : ExpressionsSound room := by
  induction room with
  | zero => exact .of_inner nofun expression_sound_zero
  | succ room ih =>
    refine .of_inner (fun inner hi => ?_) (expression_sound_succ ih)
    cases hi
    exact ih

theorem expression_sound (room : Nat) (c : Cursor) :
    Sound (expression room) room 1 c (ReadsExpression room) := by
  cases room with
  | zero => exact expression_sound_zero c
  | succ room => exact expression_sound_succ (expressionsSound room) c

/-! ## Parts of statements -/

section Statements

variable {room : Nat} {statement : Parser Stmt} {elseIf : Parser (Expr × Block × Otherwise)}
  {c : Cursor}

theorem binding_sound (h : c.kind = .keyword .letWord) :
    Sound (binding room) room 1 c fun b ks after =>
      DerivesBinding room b ks ∧ Greedy after.kind := by
  by_cases hw : ∃ x, c.advance.kind = .word x
  · obtain ⟨x, hx⟩ := hw
    refine .congr (binding_of_word hx) (.next_bind h rfl (.next_bind hx rfl (.expect_bind ?_)))
    refine .bind_pure ((expression_sound room _).mono (by omega) fun _ _ _ hv => hv) ?_
    rintro v vs after ⟨hv, hj⟩
    exact ⟨⟨vs, rfl, hv⟩, hj⟩
  · rw [not_exists] at hw
    exact .fail (binding_of_other hw) nofun

theorem parenthesised_sound {r : Role} (h : c.kind = .keyword r) :
    Sound (parenthesised room) room 1 c fun e ks _ =>
      ∃ us, ks = .keyword r :: inParens us ∧ Derives room .expression e us := by
  refine .next_bind h rfl (.expect_bind ?_)
  refine .bind ((expression_sound room _).mono (by omega) fun _ _ _ he => he) ?_
  rintro e us mid - ⟨he, -⟩
  exact .expect_bind (.pure ⟨us, by simp [inParens], he⟩)

theorem clause_sound (stop : Symbol) :
    Sound (clause room stop) room 1 c fun e ks _ => DerivesClause room e ks := by
  by_cases hstop : c.kind = .symbol stop
  · exact .congr (clause_of_stop hstop) (.pure rfl)
  · refine .congr (clause_of_other hstop) (.bind_pure (expression_sound room c) ?_)
    exact fun e ks mid he => he.1

theorem init_sound : Sound (init room) room 1 c fun i ks _ => DerivesInit room i ks := by
  by_cases hs : c.kind = .symbol .semicolon
  · exact .congr (init_of_semicolon hs) (.pure rfl)
  by_cases hl : c.kind = .keyword .letWord
  · refine .congr (init_of_let hl) (.bind_pure (binding_sound hl) ?_)
    exact fun b ks mid hb => hb.1
  · refine .congr (init_of_other hs hl) (.bind_pure (expression_sound room c) ?_)
    exact fun e ks mid he => he.1

/-- Statements are sound with the given room. -/
def StatementSound (room : Nat) (statement : Parser Stmt) : Prop :=
  ∀ c, Sound statement room 2 c fun s ks after =>
    Yields Greedy room (.statement s) ks after.kind

/-- What follows an `else` that an `if` follows is sound with the given room. -/
def ElseIfSound (room : Nat) (elseIf : Parser (Expr × Block × Otherwise)) : Prop :=
  ∀ c, c.kind = .keyword .ifWord → Sound elseIf room 2 c fun parts ks after =>
    Yields Greedy room (.otherwise (.branch parts.1 parts.2.1 parts.2.2))
      (.keyword .elseWord :: ks) after.kind

-- By induction on the count, which the tokens ahead never exceed since a statement has a token.
theorem statementsWithin_sound (hs : StatementSound room statement) {stops : Kind → Bool}
    (heof : stops .eof = true) {count : Nat} (hcount : c.ahead.length ≤ count) :
    Sound (statementsWithin statement stops count) room 2 c fun ss ks after =>
      Yields Greedy room (.statements ss) ks after.kind ∧ stops after.kind = true := by
  induction count generalizing c with
  | zero =>
    have hnil : c.ahead = [] := List.length_eq_zero_iff.mp (Nat.le_zero.mp hcount)
    have hk := Kind.eq_eof_of_isEof (Cursor.ahead_eq_nil_iff.mp hnil)
    exact .pure ⟨.nil, by rw [hk, heof]⟩
  | succ count ih =>
    refine .peek_bind ?_
    by_cases hstop : stops c.current.kind = true
    · rw [if_pos hstop]
      exact .pure ⟨.nil, hstop⟩
    · rw [if_neg hstop]
      refine .bind (hs c) ?_
      intro s ks mid hr hd
      have hlen := hr.length_le
      obtain ⟨k, us, rfl, -⟩ := hd.starts
      simp only [List.length_cons] at hlen
      refine .bind ((ih (by omega)).mono (by omega) fun _ _ _ h => h) ?_
      rintro ss us' after hr' ⟨hss, hafter⟩
      rw [hr'.kind_eq] at hd
      exact .pure ⟨by simpa using hd.cons hss, hafter⟩

theorem block_sound (hs : StatementSound room statement) :
    Sound (block statement) room 1 c fun b ks _ =>
      ∀ after, Yields Greedy room (.block b) ks after := by
  refine .expect_bind ?_
  refine .bind (S := fun ss ks after =>
    Yields Greedy room (.statements ss) ks after.kind ∧ endsBlock after.kind = true) ?_ ?_
  · exact fun hc => statementsWithin_sound hs rfl hc.length_ahead_le hc
  · rintro ss ks mid - ⟨hss, -⟩ hc
    rw [meets_bind, meets_expect]
    refine ⟨fun hk => ?_, fun _ ⟨_, ht⟩ => nomatch ht⟩
    rw [hk] at hss
    refine ⟨[.symbol .rightBrace], hk ▸ hc.reads_advance (by rw [hk]; rfl), fun after => ?_⟩
    exact .braces hss

theorem body_sound (hs : StatementSound room statement) :
    Sound (body statement) room 2 c fun b ks after =>
      Yields Greedy room (.body b) ks after.kind := by
  by_cases hk : c.kind = .symbol .leftBrace
  · refine .congr (body_of_leftBrace hk) ((block_sound hs).mono (by omega) ?_)
    exact fun b ks after hb => .bodyBlock (hb after.kind)
  · refine .congr (body_of_other hk) (.peek_bind (.bind (hs c) ?_))
    intro s ks mid hr hd
    refine .congr rfl (.pure ?_)
    rw [List.append_nil]
    refine .bodyStatement ?_ hd
    rintro b rfl
    obtain ⟨us, rfl⟩ := hd.starts_block
    exact hk hr.kind_eq

theorem otherwise_sound (hs : StatementSound room statement) (he : ElseIfSound room elseIf) :
    Sound (otherwise statement elseIf) room 1 c fun o ks after =>
      Yields Greedy room (.otherwise o) ks after.kind := by
  by_cases helse : c.kind = .keyword .elseWord
  · by_cases hif : c.advance.kind = .keyword .ifWord
    · refine .congr (otherwise_of_if helse hif) (.next_bind helse rfl (.bind_pure (he _ hif) ?_))
      exact fun parts ks after ho => ho
    · refine .congr (otherwise_of_else helse hif) (.next_bind helse rfl ?_)
      refine .bind_pure ((block_sound hs).mono (by omega) fun _ _ _ h => h) ?_
      exact fun b ks after hb => .elseBlock (hb after.kind)
  · exact .congr (otherwise_of_other helse) (.pure .nothing)

theorem branch_sound (hs : StatementSound room statement) (he : ElseIfSound room elseIf)
    (h : c.kind = .keyword .ifWord) :
    Sound (branch room statement elseIf) room 1 c fun parts ks after =>
      Yields Greedy room (.branch parts.1 parts.2.1 parts.2.2) ks after.kind := by
  refine .congr (by rw [branch_eq]) (.bind (parenthesised_sound h) ?_)
  rintro e ks mid - ⟨es, rfl, hd⟩
  refine .bind ((block_sound hs).mono (by omega) fun _ _ _ h => h) ?_
  rintro b bs mid' - hb
  refine .bind_pure ((otherwise_sound hs he).mono (by omega) fun _ _ _ h => h) ?_
  intro o os after ho
  exact .ifThen hd (hb _) ho

theorem forLoop_sound (hs : StatementSound room statement) (h : c.kind = .keyword .forWord) :
    Sound (forLoop room statement) room 1 c fun s ks after =>
      Yields Greedy room (.bare s) ks after.kind := by
  refine .next_bind h rfl (.expect_bind (.bind (init_sound.mono (by omega) fun _ _ _ h => h) ?_))
  rintro i is _ - hi
  refine .expect_bind (.bind ((clause_sound _).mono (by omega) fun _ _ _ h => h) ?_)
  rintro e cs _ - he
  refine .expect_bind (.bind ((clause_sound _).mono (by omega) fun _ _ _ h => h) ?_)
  rintro n ns _ - hn
  refine .expect_bind (.bind_pure ((body_sound hs).mono (by omega) fun _ _ _ h => h) ?_)
  intro b bs after hb
  have hloop := Yields.forLoop hi he hn hb
  simpa [inParens] using hloop

theorem expressionStatement_sound :
    Sound (expressionStatement room) room 1 c fun s ks after =>
      Yields Greedy room (.bare s) ks after.kind := by
  refine .bind (expression_sound room c) ?_
  rintro e ks mid - ⟨he, -⟩
  refine .eat_bind (.pure (by simpa using .exprEnded he)) fun _ => .peek_bind ?_
  by_cases hends : endsBlock mid.kind = true
  · refine .congr (congrFun (if_pos hends) mid) (.pure ?_)
    rw [List.append_nil]
    exact .expr he hends
  · exact .congr (congrFun (if_neg hends) mid) (.fail rfl nofun)

-- One case for each token that a statement can start with.
theorem statementAt_sound (hs : StatementSound room statement) (he : ElseIfSound room elseIf) :
    Sound (statementAt room statement elseIf) room 1 c fun s ks after =>
      Yields Greedy room (.bare s) ks after.kind := by
  by_cases hlet : c.kind = .keyword .letWord
  · refine .congr (statementAt_let hlet) (.bind (binding_sound hlet) ?_)
    rintro b ks mid - ⟨hb, hfree⟩
    refine .eat_bind (.pure (.defineEnded hb)) fun _ => .pure ?_
    rw [List.append_nil]
    exact .define hb hfree
  by_cases hprint : c.kind = .keyword .printWord
  · refine .congr (statementAt_print hprint) (.bind (parenthesised_sound hprint) ?_)
    rintro e ks mid - ⟨us, rfl, hd⟩
    exact .eat_bind (.pure (.print hd (.inr rfl))) fun _ => .pure (.print hd (.inl rfl))
  by_cases hif : c.kind = .keyword .ifWord
  · refine .congr (statementAt_if hif) (.bind_pure (branch_sound hs he hif) ?_)
    exact fun parts ks after hb => .branch hb
  by_cases hwhile : c.kind = .keyword .whileWord
  · refine .congr (statementAt_while hwhile) (.bind (parenthesised_sound hwhile) ?_)
    rintro e ks mid - ⟨us, rfl, hd⟩
    refine .bind_pure ((body_sound hs).mono (by simp; omega) fun _ _ _ h => h) ?_
    exact fun b bs after hb => .whileLoop hd hb
  by_cases hfor : c.kind = .keyword .forWord
  · exact .congr (statementAt_for hfor) (forLoop_sound hs hfor)
  by_cases hbrace : c.kind = .symbol .leftBrace
  · refine .congr (statementAt_leftBrace hbrace) (.bind_pure (block_sound hs) ?_)
    exact fun b ks after hb => .block (hb after.kind)
  · refine .congr (statementAt_expression ?_) expressionStatement_sound
    simp [Kind.leads, ← Bool.not_eq_true, *]

end Statements

theorem statement_elseIf_sound (room : Nat) :
    StatementSound room (statement room) ∧ ElseIfSound room (elseIf room) := by
  induction room with
  | zero =>
    refine ⟨fun c _ => ?_, fun c _ _ => ?_⟩
    · rw [statement, meets_tooDeep]
      omega
    · rw [elseIf, meets_tooDeep]
      omega
  | succ room ih =>
    refine ⟨fun c => ?_, fun c hif => ?_⟩
    · refine .congr (by rw [statement]) ((statementAt_sound ih.1 ih.2).deeper.mono (by omega) ?_)
      exact fun s ks after hs => .statement (room_succ room) hs
    · refine .congr (by rw [elseIf]) ((branch_sound ih.1 ih.2 hif).deeper.mono (by omega) ?_)
      exact fun parts ks after hb => .elseIf (room_succ room) hb

/-- A program that is read is derived from all the tokens, and it is found too deep only when there
    are almost as many tokens as there is room. -/
theorem program_sound (c : Cursor) :
    Sound program maxNesting 2 c fun p ks after =>
      Yields Greedy maxNesting (.statements p.statements) ks .eof ∧ after.ahead = [] := by
  refine .bind_pure (S := fun ss ks after =>
    Yields Greedy maxNesting (.statements ss) ks after.kind ∧ after.kind.isEof = true) ?_ ?_
  · have hs := (statement_elseIf_sound maxNesting).1
    exact fun hc => statementsWithin_sound hs rfl hc.length_ahead_le hc
  · rintro ss ks after ⟨hss, heof⟩
    rw [Kind.eq_eof_of_isEof heof] at hss
    exact ⟨hss, Cursor.ahead_eq_nil_iff.mpr heof⟩

end Respell.Parser
