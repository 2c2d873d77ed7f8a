-- SUMMARY: Which tokens an expression is written with, and that these alone are read as it.
import Respell.Proofs.Nodes
import Respell.Proofs.Parsing.Completeness

/-!
# The tokens of an expression

`Expr.Written` says token by token how an expression is written, and thereby what its span is: that
of its tokens, with the parentheses around it. `Cursor.Takes` says which tokens lead from one cursor
to another. With these, a production can be told what it does to the tokens alone: wherever they
stand, and with at least as much room, they are read as the same expression with the same spans.
-/

namespace Respell

/-! ## Written expressions -/

/-- An expression is written with the given tokens, and its spans are those of its tokens. -/
inductive Expr.Written : Expr → List Token → Prop where
  | atom {t : Token} {e : Expr} : t.kind.atom? t.span = some e → Written e [t]
  /-- an expression in parentheses has the span of the parentheses -/
  | paren {opening closing : Token} {e : Expr} {ts : List Token} :
      opening.kind = .symbol .leftParen → Written e ts → closing.kind = .symbol .rightParen →
      Written (e.withSpan (opening.span.merge closing.span)) (opening :: (ts ++ [closing]))
  | unary {t : Token} {op : UnaryOp} {e : Expr} {ts : List Token} :
      t.kind.unary? = some op → Written e ts →
      Written (.unary op e (t.span.merge e.span)) (t :: ts)
  | binary {l : Level} {t : Token} {op : BinaryOp} {a b : Expr} {ts us : List Token} :
      Written a ts → l.operator? t.kind = some op → Written b us →
      Written (.binary op a b (a.span.merge b.span)) (ts ++ t :: us)
  | assign {t : Token} {x : String} {s : Span} {v : Expr} {ts us : List Token} :
      Written (.name x s) ts → t.kind = .symbol .assign → Written v us →
      Written (.assign x v (s.merge v.span)) (ts ++ t :: us)

/-! ## Tokens between cursors -/

namespace Cursor

/-- The tokens from here on. -/
def tokens (c : Cursor) : List Token :=
  c.current :: c.later

/-- The tokens that lead from one cursor to another; the end of the input is not among them. -/
inductive Takes : Cursor → List Token → Cursor → Prop where
  | nil (c : Cursor) : Takes c [] c
  | cons {c after : Cursor} {ts : List Token} : c.kind.isEof = false →
      Takes c.advance ts after → Takes c (c.current :: ts) after

theorem takes_advance {c : Cursor} (h : c.kind.isEof = false) :
    c.Takes [c.current] c.advance :=
  .cons h (.nil _)

theorem Takes.trans {c mid after : Cursor} {ts us : List Token} (h : c.Takes ts mid)
    (h' : mid.Takes us after) : c.Takes (ts ++ us) after := by
  induction h with
  | nil c => exact h'
  | cons hk _ ih => exact .cons hk (ih h')

theorem Takes.split {c after : Cursor} {ts us : List Token} (h : c.Takes (ts ++ us) after) :
    ∃ mid, c.Takes ts mid ∧ mid.Takes us after := by
  induction ts generalizing c with
  | nil => exact ⟨c, .nil c, h⟩
  | cons t ts ih =>
    cases h with
    | cons hk h =>
      obtain ⟨mid, hts, hus⟩ := ih h
      exact ⟨mid, .cons hk hts, hus⟩

/-- The first of some tokens stands at the cursor. -/
theorem Takes.uncons {c after : Cursor} {t : Token} {ts : List Token}
    (h : c.Takes (t :: ts) after) :
    c.current = t ∧ c.kind.isEof = false ∧ c.advance.Takes ts after := by
  cases h with
  | cons hk h => exact ⟨rfl, hk, h⟩

theorem Closed.advance_eq {c : Cursor} (h : c.Closed) (hk : c.kind.isEof = false) :
    ∃ next later, c.later = next :: later ∧
      c.advance = ⟨c.index + 1, c.current.span, next, later⟩ := by
  obtain ⟨t, ht, heof⟩ := h
  obtain ⟨index, previous, current, later⟩ := c
  have hk' : current.kind.isEof = false := hk
  cases later with
  | nil =>
    rw [List.mem_singleton.mp ht, hk'] at heof
    cases heof
  | cons next later => exact ⟨next, later, rfl, by simp [Cursor.advance, kind, hk']⟩

theorem Closed.tokens_advance {c : Cursor} (h : c.Closed) (hk : c.kind.isEof = false) :
    c.tokens = c.current :: c.advance.tokens := by
  obtain ⟨next, later, hlater, hadvance⟩ := h.advance_eq hk
  rw [hadvance, tokens, hlater]
  rfl

theorem Closed.previous_advance {c : Cursor} (h : c.Closed) (hk : c.kind.isEof = false) :
    c.advance.previous = c.current.span := by
  obtain ⟨next, later, -, hadvance⟩ := h.advance_eq hk
  rw [hadvance]

theorem Closed.index_advance {c : Cursor} (h : c.Closed) (hk : c.kind.isEof = false) :
    c.advance.index = c.index + 1 := by
  obtain ⟨next, later, -, hadvance⟩ := h.advance_eq hk
  rw [hadvance]

theorem Takes.closed {c after : Cursor} {ts : List Token} (h : c.Takes ts after)
    (hc : c.Closed) : after.Closed := by
  induction h with
  | nil c => exact hc
  | cons _ _ ih => exact ih hc.advance

theorem Takes.tokens_eq {c after : Cursor} {ts : List Token} (h : c.Takes ts after)
    (hc : c.Closed) : c.tokens = ts ++ after.tokens := by
  induction h with
  | nil c => rfl
  | cons hk _ ih => rw [hc.tokens_advance hk, ih hc.advance, List.cons_append]

theorem Takes.index_eq {c after : Cursor} {ts : List Token} (h : c.Takes ts after)
    (hc : c.Closed) : after.index = c.index + ts.length := by
  induction h with
  | nil c => rfl
  | cons hk _ ih =>
    rw [ih hc.advance, hc.index_advance hk, List.length_cons]
    omega

theorem Takes.isEof {c after : Cursor} {ts : List Token} (h : c.Takes ts after) :
    ∀ t ∈ ts, t.kind.isEof = false := by
  induction h with
  | nil c => exact nofun
  | cons hk _ ih => exact List.forall_mem_cons.mpr ⟨hk, ih⟩

/-- Where some tokens, none of them the end of the input, stand before a further one, they can be
    taken. -/
theorem exists_takes {c : Cursor} {ts rest : List Token} (hc : c.Closed)
    (hts : ∀ t ∈ ts, t.kind.isEof = false) (h : c.tokens = ts ++ rest) :
    ∃ after, c.Takes ts after ∧ after.tokens = rest := by
  induction ts generalizing c with
  | nil => exact ⟨c, .nil c, h⟩
  | cons t ts ih =>
    obtain ⟨rfl, hlater⟩ := List.cons.inj h
    have hk : c.kind.isEof = false := hts c.current List.mem_cons_self
    have htail := hc.tokens_advance hk
    rw [h, List.cons_append] at htail
    obtain ⟨after, htakes, hafter⟩ := ih hc.advance
      (fun u hu => hts u (List.mem_cons_of_mem _ hu)) (List.cons.inj htail).2.symm
    exact ⟨after, .cons hk htakes, hafter⟩

end Cursor

theorem Expr.Written.isEof {e : Expr} {ts : List Token} (h : e.Written ts) :
    ∀ t ∈ ts, t.kind.isEof = false := by
  induction h with
  | atom ha => simpa using Kind.isEof_of_atom? ha
  | paren ho _ hc ih => simpa [ho, hc, Kind.isEof, or_imp, forall_and] using ih
  | unary hop _ ih => exact List.forall_mem_cons.mpr ⟨Kind.isEof_of_unary? hop, ih⟩
  | binary _ hop _ iha ihb =>
    rw [List.forall_mem_append, List.forall_mem_cons]
    exact ⟨iha, Kind.isEof_of_operator? hop, ihb⟩
  | assign _ hk _ ihx ihv =>
    rw [List.forall_mem_append, List.forall_mem_cons, hk]
    exact ⟨ihx, rfl, ihv⟩

theorem Expr.Written.starts {e : Expr} {ts : List Token} (h : e.Written ts) :
    ∃ t us, ts = t :: us ∧ t.kind.startsExpression = true := by
  induction h with
  | @atom t _ ha => exact ⟨t, [], rfl, Kind.startsExpression_of_atom? ha⟩
  | paren ho _ _ _ => exact ⟨_, _, rfl, by rw [ho]; rfl⟩
  | unary hop _ _ => exact ⟨_, _, rfl, by simp [Kind.startsExpression, hop]⟩
  | binary _ _ _ iha _ =>
    obtain ⟨t, us, rfl, ht⟩ := iha
    exact ⟨t, _, rfl, ht⟩
  | assign _ _ _ ihx _ =>
    obtain ⟨t, us, rfl, ht⟩ := ihx
    exact ⟨t, _, rfl, ht⟩

/-! ## What tokens are read as -/

namespace Parser

open Cursor (Takes)

/-- Wherever the tokens stand before no operator of the given levels, and whatever room there is
    beyond `room`, they are read as the expression. -/
def ReadsAs (room : Nat) (levels : List Level) (e : Expr) (ts : List Token) : Prop :=
  ∀ (extra : Nat) {c after : Cursor}, c.Takes ts after →
    (∀ l ∈ levels, l.operator? after.kind = none) →
      operation (room + extra) levels c = .ok e after

/-- Wherever the tokens stand before nothing that goes on with them, and whatever room there is
    beyond `room`, they are read as the expression, which may also be an assignment. -/
def ReadsWhole (room : Nat) (e : Expr) (ts : List Token) : Prop :=
  ∀ (extra : Nat) {c after : Cursor}, c.Takes ts after → after.kind.joins = false →
    assignment (room + extra) c = .ok e after

/-- The tokens are read as the left operand of a chain, after `used` operators of it, with `room`
    left for what follows. -/
def Leads (room used : Nat) (l : Level) (ls : List Level) (left : Expr) (ts : List Token) : Prop :=
  ∀ (extra : Nat) {c mid : Cursor}, c.Takes ts mid → (∀ l' ∈ ls, l'.operator? mid.kind = none) →
    operation (room + used + extra) (l :: ls) c = chain (room + extra) l ls left mid

section Reading

variable {room used : Nat} {l : Level} {ls : List Level} {e left right : Expr} {ts us : List Token}

theorem ReadsAs.mono {room' : Nat} (h : ReadsAs room ls e ts) (hr : room ≤ room') :
    ReadsAs room' ls e ts := by
  intro extra c after htakes hafter
  obtain ⟨more, rfl⟩ := Nat.exists_eq_add_of_le hr
  rw [Nat.add_assoc]
  exact h (more + extra) htakes hafter

theorem ReadsWhole.mono {room' : Nat} (h : ReadsWhole room e ts) (hr : room ≤ room') :
    ReadsWhole room' e ts := by
  intro extra c after htakes hafter
  obtain ⟨more, rfl⟩ := Nat.exists_eq_add_of_le hr
  rw [Nat.add_assoc]
  exact h (more + extra) htakes hafter

theorem ReadsAs.atom {t : Token} (h : t.kind.atom? t.span = some e) : ReadsAs room [] e [t] := by
  intro extra c after htakes _
  obtain ⟨rfl, -, hrest⟩ := htakes.uncons
  cases hrest
  rw [operation, primary_of_atom h]
  rfl

theorem ReadsAs.paren {opening closing : Token} (ho : opening.kind = .symbol .leftParen)
    (h : ReadsWhole room e ts) (hc : closing.kind = .symbol .rightParen) :
    ReadsAs (room + 1) [] (e.withSpan (opening.span.merge closing.span))
      (opening :: (ts ++ [closing])) := by
  intro extra c after htakes _
  obtain ⟨rfl, -, hrest⟩ := htakes.uncons
  obtain ⟨mid, hinner, hclose⟩ := hrest.split
  obtain ⟨rfl, -, hafter⟩ := hclose.uncons
  cases hafter
  have hmid : mid.kind = .symbol .rightParen := hc
  have hread : expression (room + 1 + extra) c.advance = .ok e mid := by
    rw [Nat.add_right_comm, expression]
    exact h extra hinner (by rw [hmid]; rfl)
  have hexpect : expect .rightParen mid = .ok mid.current.span mid.advance := by
    rw [expect, if_pos (Kind.isSymbol_iff.mpr hmid)]
  rw [operation, primary_of_leftParen ho, next_bind, bind_eq_ok_iff]
  refine ⟨e, mid, hread, bind_eq_ok_iff.mpr ⟨_, _, hexpect, rfl⟩⟩

theorem ReadsAs.unary {t : Token} {op : UnaryOp} (hop : t.kind.unary? = some op)
    (h : ReadsAs room [] e ts) :
    ReadsAs (room + 1) [] (.unary op e (t.span.merge e.span)) (t :: ts) := by
  intro extra c after htakes hafter
  obtain ⟨rfl, -, hrest⟩ := htakes.uncons
  have hread : primary (room + extra) c.advance = .ok e after := by
    have := h extra hrest hafter
    rwa [operation] at this
  rw [operation, primary_of_unary hop, Nat.add_right_comm, unary_succ, next_bind, bind_eq_ok_iff]
  exact ⟨e, after, hread, rfl⟩

/-- Nothing has been read of the chain yet. -/
theorem ReadsAs.leads (h : ReadsAs room ls e ts) : Leads room 0 l ls e ts := by
  intro extra c mid htakes hmid
  have hread := h extra htakes hmid
  rw [Nat.add_zero, operation]
  change Parser.bind _ _ c = _
  rw [Parser.bind, hread]

/-- A chain may end at every operator. -/
theorem Leads.readsAs (h : Leads room used l ls e ts) : ReadsAs (room + used) (l :: ls) e ts := by
  intro extra c after htakes hafter
  rw [List.forall_mem_cons] at hafter
  rw [h extra htakes hafter.2, chain_of_none hafter.1]

/-- An operator and its right operand make the left operand longer. -/
theorem Leads.more {t : Token} {op : BinaryOp} (hnodup : (l :: ls).Nodup)
    (h : Leads (room + 1) used l ls left ts) (hop : l.operator? t.kind = some op)
    (hright : ReadsAs room ls right us) :
    Leads room (used + 1) l ls (.binary op left right (left.span.merge right.span))
      (ts ++ t :: us) := by
  intro extra c after htakes hafter
  obtain ⟨mid, hleft, hrest⟩ := htakes.split
  obtain ⟨rfl, -, hoperand⟩ := hrest.uncons
  have hmid : ∀ l' ∈ ls, l'.operator? mid.kind = none := by
    intro l' hl'
    refine Level.operator?_eq_none_of_ne hop ?_
    rintro rfl
    exact (List.nodup_cons.mp hnodup).1 hl'
  have hread := hright extra hoperand hafter
  have hroom : room + (used + 1) + extra = room + 1 + used + extra := by omega
  rw [hroom, h extra hleft hmid, Nat.add_right_comm, chain_succ hop, next_bind]
  change Parser.bind _ _ mid.advance = _
  rw [Parser.bind, hread]

/-- What is read with operators of some levels is also read with those of looser levels. -/
theorem ReadsAs.loosen (h : ReadsAs room ls e ts) (looser : List Level) :
    ReadsAs room (looser ++ ls) e ts := by
  induction looser with
  | nil => exact h
  | cons l looser ih => exact ih.leads.readsAs

theorem ReadsAs.whole (h : ReadsAs room ls e ts) (hls : ls <:+ Level.all) :
    ReadsWhole room e ts := by
  intro extra c after htakes hafter
  obtain ⟨looser, hlooser⟩ := hls
  have hread := h.loosen looser extra htakes fun l _ => operator?_of_joins hafter l
  rw [hlooser] at hread
  have heat : eat .assign after = .ok false after := by
    rw [eat, if_neg (mt Kind.isSymbol_iff.mp (ne_assign_of_joins hafter))]
  rw [assignment, bind_eq_ok_iff]
  refine ⟨e, after, hread, ?_⟩
  rw [peek_bind, bind_eq_ok_iff]
  exact ⟨false, after, heat, rfl⟩

theorem ReadsWhole.assign {t : Token} {x : String} {s : Span} {v : Expr}
    (hx : ReadsAs (room + 1) Level.all (.name x s) ts) (ht : t.kind = .symbol .assign)
    (hv : ReadsWhole room v us) :
    ReadsWhole (room + 1) (.assign x v (s.merge v.span)) (ts ++ t :: us) := by
  intro extra c after htakes hafter
  obtain ⟨mid, htarget, hrest⟩ := htakes.split
  obtain ⟨rfl, -, hvalue⟩ := hrest.uncons
  have hmid : mid.kind = .symbol .assign := ht
  have hread := hx extra htarget fun l _ => hmid ▸ operator?_assign l
  have heat : eat .assign mid = .ok true mid.advance := by
    rw [eat, if_pos (Kind.isSymbol_iff.mpr hmid)]
  have hread' : expression (room + 1 + extra) mid.advance = .ok v after := by
    rw [Nat.add_right_comm, expression]
    exact hv extra hvalue hafter
  rw [assignment, bind_eq_ok_iff]
  refine ⟨_, mid, hread, ?_⟩
  rw [peek_bind, bind_eq_ok_iff]
  exact ⟨true, mid.advance, heat, bind_eq_ok_iff.mpr ⟨v, after, hread', rfl⟩⟩

end Reading

/-! ## Tokens that are a program -/

/-- The room that an expression has which is the only statement of a program. -/
def loneRoom : Nat :=
  maxNesting - 2

theorem expressionStatement_of_eof {room : Nat} {e : Expr} {c after : Cursor}
    (h : expression room c = .ok e after) (heof : after.kind = .eof) :
    expressionStatement room c = .ok (.expr e) after := by
  have heat : eat .semicolon after = .ok false after := by
    rw [eat, heof]
    rfl
  rw [expressionStatement, bind_eq_ok_iff]
  refine ⟨e, after, h, bind_eq_ok_iff.mpr ⟨false, after, heat, ?_⟩⟩
  have hends : endsBlock after.current.kind = true := by
    rw [show after.current.kind = .eof from heof]
    rfl
  rw [if_neg Bool.false_ne_true, peek_bind, if_pos hends]
  rfl

theorem statements_of_one {statement : Parser Stmt} {stmt : Stmt} {c after : Cursor}
    (hc : c.Closed) (hk : c.kind.isEof = false) (h : statement c = .ok stmt after)
    (heof : after.kind = .eof) : statements statement Kind.isEof c = .ok [stmt] after := by
  have hstop : Kind.isEof after.kind = true := by
    rw [heof]
    rfl
  obtain ⟨count, hcount⟩ : ∃ count, c.later.length = count + 1 := by
    have hlength := hc.length_ahead_le
    have hreads := (hc.reads_advance hk).length_le
    simp only [List.length_singleton] at hreads
    exact Nat.exists_eq_add_one.mpr (by omega)
  rw [statements, hcount, statementsWithin_of_other hk, bind_eq_ok_iff]
  have hrest : statementsWithin statement Kind.isEof count after = .ok [] after :=
    statementsWithin_of_stop hstop count
  exact ⟨stmt, after, h, bind_eq_ok_iff.mpr ⟨[], after, hrest, rfl⟩⟩

end Parser

theorem Cursor.tokens_ofTokens {tokens body : List Token} {s : Span}
    (h : tokens = body ++ [⟨.eof, s⟩]) : (ofTokens tokens).tokens = tokens := by
  cases tokens with
  | nil => simp at h
  | cons first rest =>
    have hlast : (first :: rest).getLast? = some ⟨.eof, s⟩ := by rw [h, List.getLast?_concat]
    simp [ofTokens, Cursor.tokens, hlast, Kind.isEof]

theorem Cursor.previous_ofTokens (tokens : List Token) : (ofTokens tokens).previous = ⟨0, 0⟩ := by
  cases tokens <;> rfl

/-- The tokens of an expression at the start of a program are read by its first statement. -/
theorem Parser.statement_of_readsWhole {e : Expr} {ts : List Token} {c after : Cursor}
    (hwritten : e.Written ts) (h : ReadsWhole loneRoom e ts) (htakes : c.Takes ts after)
    (hafter : after.kind.joins = false) :
    expression (maxNesting - 1) c = .ok e after ∧
      statement maxNesting c = expressionStatement (maxNesting - 1) c ∧ c.kind.isEof = false := by
  have hstarts : c.kind.startsExpression = true := by
    obtain ⟨t, us, rfl, ht⟩ := hwritten.starts
    rw [Cursor.kind, htakes.uncons.1]
    exact ht
  refine ⟨?_, ?_, Kind.isEof_of_startsStatement (by simp [Kind.startsStatement, hstarts])⟩
  · rw [show maxNesting - 1 = loneRoom + 0 + 1 from rfl, expression]
    exact h 0 htakes hafter
  · rw [show maxNesting = maxNesting - 1 + 1 from rfl, statement,
      statementAt_expression (Kind.leads_of_startsExpression hstarts)]
    rfl

/-- The tokens of an expression, with nothing before and after them, are the program that consists
    of the expression. -/
theorem Program.parse_expression {e : Expr} {ts : List Token} (hwritten : e.Written ts)
    (h : Parser.ReadsWhole Parser.loneRoom e ts) (s : Span) :
    Program.parse (ts ++ [⟨.eof, s⟩]) = .ok ⟨[.expr e]⟩ := by
  have hclosed := Cursor.closed_ofTokens (ts ++ [⟨.eof, s⟩])
  have htokens : (Cursor.ofTokens (ts ++ [⟨.eof, s⟩])).tokens = ts ++ [⟨.eof, s⟩] :=
    Cursor.tokens_ofTokens rfl
  unfold Program.parse
  generalize Cursor.ofTokens (ts ++ [⟨.eof, s⟩]) = c at hclosed htokens ⊢
  obtain ⟨after, htakes, hafter⟩ := Cursor.exists_takes hclosed hwritten.isEof htokens
  have heof : after.kind = .eof := congrArg Token.kind (List.cons.inj hafter).1
  obtain ⟨hexpression, hstatement, hk⟩ :=
    Parser.statement_of_readsWhole hwritten h htakes (by rw [heof]; rfl)
  rw [Parser.expressionStatement_of_eof hexpression heof] at hstatement
  have hprogram : Parser.program c = .ok ⟨[.expr e]⟩ after := by
    rw [Parser.program, Parser.bind_eq_ok_iff]
    exact ⟨_, after, Parser.statements_of_one hclosed hk hstatement heof, rfl⟩
  rw [hprogram]

/-- The tokens of an expression are no program if a name follows them. -/
theorem Program.parse_before_word {e : Expr} {ts rest : List Token} {t : Token} {x : String}
    {s : Span} (hwritten : e.Written ts) (h : Parser.ReadsWhole Parser.loneRoom e ts)
    (ht : t.kind = .word x) :
    Program.parse (ts ++ (t :: rest ++ [⟨.eof, s⟩])) =
      .error ⟨.wanted (.symbol .semicolon) t.kind, t.span⟩ := by
  have hclosed := Cursor.closed_ofTokens (ts ++ (t :: rest ++ [⟨.eof, s⟩]))
  have htokens : (Cursor.ofTokens (ts ++ (t :: rest ++ [⟨.eof, s⟩]))).tokens =
      ts ++ (t :: rest ++ [⟨.eof, s⟩]) :=
    Cursor.tokens_ofTokens (List.append_assoc ts (t :: rest) _).symm
  unfold Program.parse
  generalize Cursor.ofTokens (ts ++ (t :: rest ++ [⟨.eof, s⟩])) = c at hclosed htokens ⊢
  obtain ⟨after, htakes, hafter⟩ := Cursor.exists_takes hclosed hwritten.isEof htokens
  obtain rfl : after.current = t := (List.cons.inj hafter).1
  have hword : after.kind = .word x := ht
  obtain ⟨hexpression, hstatement, hk⟩ :=
    Parser.statement_of_readsWhole hwritten h htakes (by rw [hword]; rfl)
  have heat : Parser.eat .semicolon after = .ok false after := by
    rw [Parser.eat, hword]
    rfl
  have hends : ¬ Parser.endsBlock after.current.kind = true := by
    rw [ht]
    exact Bool.false_ne_true
  have hfail : Parser.expressionStatement (maxNesting - 1) c =
      .error ⟨.wanted (.symbol .semicolon) after.current.kind, after.current.span⟩ after := by
    rw [Parser.expressionStatement, Parser.bind_eq_error_iff]
    refine .inr ⟨e, after, hexpression,
      Parser.bind_eq_error_iff.mpr (.inr ⟨false, after, heat, ?_⟩)⟩
    rw [if_neg Bool.false_ne_true, Parser.peek_bind, if_neg hends]
    rfl
  obtain ⟨count, hcount⟩ : ∃ count, c.later.length = count + 1 := by
    have hlength := congrArg List.length htokens
    obtain ⟨u, us, rfl, -⟩ := hwritten.starts
    simp only [Cursor.tokens, List.length_cons, List.length_append] at hlength
    exact Nat.exists_eq_add_one.mpr (by omega)
  have hgo : ¬ Kind.isEof c.current.kind = true := Bool.not_eq_true _ ▸ hk
  have hprogram : Parser.program c =
      .error ⟨.wanted (.symbol .semicolon) after.current.kind, after.current.span⟩ after := by
    rw [Parser.program, Parser.bind_eq_error_iff, Parser.statements, hcount,
      Parser.statementsWithin, Parser.peek_bind, if_neg hgo, Parser.bind_eq_error_iff, hstatement]
    exact .inl (.inl hfail)
  rw [hprogram]

end Respell
