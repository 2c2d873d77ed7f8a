-- SUMMARY: The parser comes to an end with its counters within bounds, whatever the tokens are.
import Respell.Proofs.Parsing.Counters
import Respell.Proofs.Parsing.Extending

/-!
# The recursion of the parser

Each production of the parser that counts does what the production of the parser does, and reads a
token before it answers, if it is given enough steps. For expressions sixteen steps a level are
enough, since an expression and an operator of a chain take a level before they call another
production. Statements are by induction on the levels that are left, and a list of statements on the
tokens that are left. So the parser comes to an end on every list of tokens, and what it notes on
the way is within the bounds.
-/

namespace Respell

namespace Counting

variable {tokens : List Token} {f : Frame} {d room least : Nat} {c : Cursor}

theorem isEof_eq_false {k : Kind} (h : c.current.kind = k) (hk : k.isEof = false) :
    c.kind.isEof = false :=
  (congrArg Kind.isEof h).trans hk

/-! ## Expressions -/

mutual

theorem expression_follows (n room : Nat) {f : Frame} {d : Nat} {c : Cursor} (hn : 16 * room < n)
    (h : f.Allows d room 1) (htop : d ≤ f.top) :
    Follows tokens f d d (c.index + 1) (Parser.expression room) (expression tokens n) c := by
  cases n with
  | zero => exact absurd hn (Nat.not_lt_zero _)
  | succ n =>
    rw [expression]
    refine .call h fun h => ?_
    cases room with
    | zero =>
      rw [Parser.expression]
      exact .nested_zero h htop
    | succ room =>
      rw [Parser.expression]
      have hlength : Level.all.length = 5 := rfl
      exact .nested_succ h htop fun h => assignment_follows n room (by omega) h rfl
termination_by n

theorem assignment_follows (n room : Nat) {f : Frame} {d : Nat} {c : Cursor}
    (hn : 16 * room + 4 + Level.all.length < n) (h : f.Allows d room 8)
    (htop : f.top = maxNesting) :
    Follows tokens f d d (c.index + 1) (Parser.assignment room) (assignment tokens n) c := by
  cases n with
  | zero => exact absurd hn (Nat.not_lt_zero _)
  | succ n =>
    rw [assignment, Parser.assignment]
    refine .call h fun h => ?_
    refine .bind (operation_follows n room Level.all (by omega) h htop) fun target mid hmid => ?_
    refine .sees_bind (fun hk => ?_) fun hk => ?_
    · have heof : mid.kind.isEof = false := isEof_eq_false hk rfl
      refine .congr (q := Parser.next >>= fun sign => do
        let value ← Parser.expression room
        match target with
        | .name name span => return .assign name value (span.merge value.span)
        | _ => Parser.failAt .notAssignable (target.span.merge sign.span)) ?_ ?_
      · rw [Parser.peek_bind, Parser.eat_bind, if_pos (Kind.isSymbol_iff.mpr hk)]
        rfl
      refine .next_bind heof fun hindex => ?_
      refine .bind (expression_follows n room (by omega) (h.mono (by decide)) (h.le_top htop)) ?_
      intro value after hafter
      cases target with
      | name x s => exact .pure _ (by omega)
      | _ => exact .failAt .notAssignable _ (h.le_top htop)
    · refine .congr (q := pure target) ?_ (.pure target hmid)
      rw [Parser.peek_bind, Parser.eat_bind, if_neg (mt Kind.isSymbol_iff.mp hk)]
      rfl
termination_by n

theorem operation_follows (n room : Nat) (levels : List Level) {f : Frame} {d : Nat} {c : Cursor}
    (hn : 16 * room + 3 + levels.length < n) (h : f.Allows d room (2 + levels.length))
    (htop : f.top = maxNesting) :
    Follows tokens f d d (c.index + 1) (Parser.operation room levels)
      (operation tokens n levels) c := by
  cases n with
  | zero => exact absurd hn (Nat.not_lt_zero _)
  | succ n =>
    cases levels with
    | nil =>
      rw [operation, Parser.operation]
      exact primary_follows n room (Nat.lt_of_succ_lt_succ hn) h htop
    | cons level levels =>
      rw [operation, Parser.operation]
      rw [List.length_cons] at hn
      refine .call h fun h => ?_
      refine .bind (operation_follows n room levels (by omega) h htop) fun left mid hmid => ?_
      refine .of_opened_le fun hopened => .tally_bind ?_
      exact chain_follows n room level levels left (by omega) h htop hopened (Nat.le_refl d) hmid
termination_by n

/-- The depth goes up with each operator, and at the end of the chain it is set to `exit`. -/
theorem chain_follows (n room : Nat) (level : Level) (levels : List Level) (left : Expr) {f : Frame}
    {d exit least : Nat} {c : Cursor} (hn : 16 * room + levels.length < n)
    (h : f.Allows d room (2 + levels.length)) (htop : f.top = maxNesting)
    (hopened : f.opened ≤ exit) (hexit : exit ≤ d) (hleast : least ≤ c.index) :
    Follows tokens f d exit least (Parser.chain room level levels left)
      (do
        let whole ← chain tokens n level levels left
        move fun now => { now with depth := exit }
        return whole) c := by
  cases n with
  | zero => exact absurd hn (Nat.not_lt_zero _)
  | succ n =>
    rw [chain, bind_assoc]
    refine .token_bind ?_
    cases hop : level.operator? c.current.kind with
    | none => exact .congr (Parser.chain_of_none hop) (.setDepth left hexit hopened hleast)
    | some op =>
      have heof : c.kind.isEof = false := Kind.isEof_of_operator? hop
      simp only [bind_assoc]
      cases room with
      | zero => exact .congr (Parser.chain_zero hop) (.descend_bind_zero h (h.le_top htop))
      | succ room =>
        refine .congr (Parser.chain_succ hop) (.descend_bind_succ h ?_)
        refine .next_bind heof fun hindex => ?_
        have hright := operation_follows n room levels (c := c.advance) (by omega) h.deeper htop
        refine .bind hright fun right mid hmid => ?_
        exact chain_follows n room level levels _ (by omega) h.deeper htop hopened (by omega)
          (by omega)
termination_by n

theorem primary_follows (n room : Nat) {f : Frame} {d : Nat} {c : Cursor}
    (hn : 16 * room + 2 < n) (h : f.Allows d room 2) (htop : f.top = maxNesting) :
    Follows tokens f d d (c.index + 1) (Parser.primary room) (primary tokens n) c := by
  cases n with
  | zero => exact absurd hn (Nat.not_lt_zero _)
  | succ n =>
    rw [primary]
    refine .call h fun h => .token_bind ?_
    refine .congr (by rw [Parser.primary.eq_def, Parser.peek_bind]) ?_
    have hother : Follows tokens f.call d d (c.index + 1) (Parser.wanted .expression : Parser Expr)
        (wanted tokens .expression) c :=
      .wanted .expression (h.le_top htop)
    have hunary (op : UnaryOp) (heof : c.kind.isEof = false) :
        Follows tokens f.call d d (c.index + 1) (Parser.unary room op c.current.span)
          (unary tokens n op c.current.span) c :=
      unary_follows n room op c.current.span (by omega) h htop heof
    generalize hk : c.current.kind = kind
    cases kind with
    | number x => exact .next_bind (isEof_eq_false hk rfl) fun hindex => .pure _ hindex.ge
    | text s => exact .next_bind (isEof_eq_false hk rfl) fun hindex => .pure _ hindex.ge
    | word x => exact .next_bind (isEof_eq_false hk rfl) fun hindex => .pure _ hindex.ge
    | eof => exact hother
    | keyword role =>
      cases role with
      | trueWord => exact .next_bind (isEof_eq_false hk rfl) fun hindex => .pure _ hindex.ge
      | falseWord => exact .next_bind (isEof_eq_false hk rfl) fun hindex => .pure _ hindex.ge
      | _ => exact hother
    | symbol s =>
      cases s with
      | plus => exact hunary .plus (isEof_eq_false hk rfl)
      | minus => exact hunary .negate (isEof_eq_false hk rfl)
      | bang => exact hunary .not (isEof_eq_false hk rfl)
      | leftParen =>
        refine .next_bind (isEof_eq_false hk rfl) fun hindex => ?_
        refine .bind (expression_follows n room (by omega) h (h.le_top htop)) ?_
        intro inner mid hmid
        exact .expect_bind (h.le_top htop) fun hclosing => .pure _ (by omega)
      | _ => exact hother
termination_by n

theorem unary_follows (n room : Nat) (op : UnaryOp) (start : Span) {f : Frame} {d : Nat}
    {c : Cursor} (hn : 16 * room + 1 < n) (h : f.Allows d room 1) (htop : f.top = maxNesting)
    (heof : c.kind.isEof = false) :
    Follows tokens f d d (c.index + 1) (Parser.unary room op start)
      (unary tokens n op start) c := by
  cases n with
  | zero => exact absurd hn (Nat.not_lt_zero _)
  | succ n =>
    rw [unary]
    refine .call h fun h => ?_
    cases room with
    | zero =>
      refine .congr (q := Parser.next >>= fun _ => do
        let operand ← (Parser.tooDeep .expression : Parser Expr)
        return .unary op operand (start.merge operand.span)) ?_ ?_
      · rw [Parser.unary_zero]
        rfl
      refine .next_bind heof fun hindex => ?_
      exact .bind (.nested_zero h (h.le_top htop)) fun operand mid hmid => .pure _ hmid
    | succ room =>
      refine .congr Parser.unary_succ (.next_bind heof fun hindex => ?_)
      have hoperand : Follows tokens f.call d d (c.advance.index + 1) (Parser.primary room)
          (nested tokens .expression (primary tokens n)) c.advance :=
        .nested_succ h (h.le_top htop) fun h =>
          primary_follows n room (by omega) (h.mono (by decide)) rfl
      exact hoperand.bind fun operand mid hmid => .pure _ (by omega)
termination_by n

end

/-! ## Parts of statements -/

section

variable {n : Nat} (hn : 16 * room < n)
include hn

theorem binding_follows (h : f.Allows d room 2) (htop : f.top = maxNesting)
    (hk : c.kind = .keyword .letWord) :
    Follows tokens f d d (c.index + 1) (Parser.binding room) (binding tokens n) c := by
  rw [binding, Parser.binding]
  refine .call h fun h => .next_bind (isEof_eq_false hk rfl) fun hindex => .token_bind ?_
  refine .congr (Parser.peek_bind _ _) ?_
  generalize hname : c.advance.current.kind = kind
  cases kind with
  | word x =>
    refine .next_bind (isEof_eq_false hname rfl) fun hindex' => ?_
    refine .expect_bind (h.le_top htop) fun hindex'' => ?_
    refine (expression_follows n room hn h (h.le_top htop)).bind fun value mid hmid => ?_
    exact .pure _ (by omega)
  | _ => exact .fail (.wantedName _) (h.le_top htop)

theorem parenthesised_follows (h : f.Allows d room 1) (htop : f.top = maxNesting)
    (heof : c.kind.isEof = false) :
    Follows tokens f d d (c.index + 1) (Parser.parenthesised room) (parenthesised tokens n) c := by
  rw [parenthesised, Parser.parenthesised]
  refine .next_bind heof fun hindex => .expect_bind (h.le_top htop) fun hopening => ?_
  refine (expression_follows n room hn h (h.le_top htop)).bind fun inner mid hmid => ?_
  exact .expect_bind (h.le_top htop) fun hclosing => .pure inner (by omega)

/-- What is done with an expression in parentheses, with or without a semicolon after it. -/
theorem print_follows (h : f.Allows d room 2) (htop : f.top = maxNesting)
    (hk : c.kind = .keyword .printWord) :
    Follows tokens f d d (c.index + 1)
      (do
        let value ← Parser.parenthesised room
        let _ ← Parser.eat .semicolon
        return .print value) (print tokens n) c := by
  rw [print]
  refine .call h fun h => ?_
  refine (parenthesised_follows hn h htop (isEof_eq_false hk rfl)).bind fun value mid hmid => ?_
  exact .eat_bind (fun hindex => .pure _ (by omega)) (.pure _ hmid)

theorem init_follows (h : f.Allows d room 2) (htop : f.top = maxNesting) :
    Follows tokens f d d c.index (Parser.init room) (init tokens n) c := by
  rw [init, Parser.init]
  refine .token_bind (.congr (Parser.peek_bind _ _) ?_)
  have hexpression : Follows tokens f d d c.index
      (do return some (.expr (← Parser.expression room)) : Parser (Option Init))
      (do return some (.expr (← expression tokens n)) : Counting (Option Init)) c := by
    refine (expression_follows n room hn (h.mono (by decide)) (h.le_top htop)).bind ?_
    exact fun value mid hmid => .pure _ (by omega)
  generalize hk : c.current.kind = kind
  cases kind with
  | keyword role =>
    cases role with
    | letWord => exact (binding_follows hn h htop hk).bind fun b mid hmid => .pure _ (by omega)
    | _ => exact hexpression
  | symbol s =>
    cases s with
    | semicolon => exact .pure none (Nat.le_refl _)
    | _ => exact hexpression
  | _ => exact hexpression

theorem clause_follows (stop : Symbol) (h : f.Allows d room 1) (htop : f.top = maxNesting) :
    Follows tokens f d d c.index (Parser.clause room stop) (clause tokens n stop) c := by
  rw [clause]
  refine .sees_bind (fun hk => ?_) fun hk => ?_
  · exact .congr (q := pure none) (Parser.clause_of_stop hk) (.pure none (Nat.le_refl _))
  · refine .congr (Parser.clause_of_other hk) ?_
    refine (expression_follows n room hn h (h.le_top htop)).bind fun value mid hmid => ?_
    exact .pure _ (by omega)

theorem expressionStatement_follows (h : f.Allows d room 1) (htop : f.top = maxNesting) :
    Follows tokens f d d (c.index + 1) (Parser.expressionStatement room)
      (expressionStatement tokens n) c := by
  rw [expressionStatement, Parser.expressionStatement]
  refine (expression_follows n room hn h (h.le_top htop)).bind fun value mid hmid => ?_
  refine .eat_bind (fun hindex => .pure _ (by omega)) (.token_bind ?_)
  refine .congr (Parser.peek_bind _ _) ?_
  by_cases hends : Parser.endsBlock mid.current.kind = true
  · simp only [hends, if_true]
    exact .pure _ hmid
  · simp only [hends]
    exact .wanted _ (h.le_top htop)

end

/-! ## Statements -/

/-- With so many levels left, statements and `else if`s do what those of the parser do, if they are
    given `enough` steps or more. -/
structure StatementsFollow (tokens : List Token) (room enough : Nat) : Prop where
  expression : 16 * room < enough
  statement : ∀ n, enough ≤ n → ∀ {f : Frame} {d : Nat} {c : Cursor},
    f.Allows d room 1 → d ≤ f.top →
    Follows tokens f d d (c.index + 1) (Parser.statement room) (statement tokens n) c
  elseIf : ∀ n, enough ≤ n → ∀ {f : Frame} {d : Nat} {c : Cursor},
    f.Allows d room 0 → d ≤ f.top → c.kind = .keyword .ifWord →
    Follows tokens f d d (c.index + 1) (Parser.elseIf room)
      (nested tokens .statement (branch tokens n)) c

section

variable {enough n : Nat} (hs : StatementsFollow tokens room enough)
include hs

-- By induction on how many tokens there can still be: a statement has read one when it answers.
theorem statements_follow {stops : Kind → Bool} (heof : stops .eof = true) (h : f.Allows d room 1)
    (htop : d ≤ f.top) {left : Nat} (hleft : tokens.length ≤ c.index + left)
    (hn : enough + left ≤ n) :
    Follows tokens f d d c.index (Parser.statements (Parser.statement room) stops)
      (statements tokens n stops) c := by
  induction left generalizing n c with
  | zero => exact .of_in fun hin => absurd hin.index_lt (Nat.not_lt_of_le hleft)
  | succ left ih =>
    cases n with
    | zero => exact absurd hn (Nat.not_succ_le_zero _)
    | succ n =>
      rw [statements]
      refine .of_in fun hin => .token_bind ?_
      cases hstop : stops c.current.kind with
      | true =>
        refine .congr (q := pure []) (Parser.statements_of_stop hstop) ?_
        exact .pure [] (Nat.le_refl _)
      | false =>
        have hsound := (Parser.statement_elseIf_sound room).1
        refine .congr (Parser.statements_of_other hsound heof hin.closed hstop) ?_
        refine (hs.statement n (by omega) h htop).bind fun first mid hmid => ?_
        exact (ih (by omega) (by omega)).bind fun rest after hafter => .pure _ (by omega)

theorem block_follows (hn : enough + tokens.length + 1 ≤ n) (h : f.Allows d room 2)
    (htop : f.top = maxNesting) :
    Follows tokens f d d (c.index + 1) (Parser.block (Parser.statement room))
      (block tokens n) c := by
  cases n with
  | zero => exact absurd hn (Nat.not_succ_le_zero _)
  | succ n =>
    rw [block, Parser.block]
    refine .call h fun h => .expect_bind (h.le_top htop) fun hopening => ?_
    have hinner : Follows tokens f.call d d c.advance.index
        (Parser.statements (Parser.statement room) Parser.endsBlock)
        (statements tokens n Parser.endsBlock) c.advance :=
      statements_follow hs rfl h (h.le_top htop) (Nat.le_add_left _ _) (Nat.le_of_succ_le_succ hn)
    refine hinner.bind fun inner mid hmid => ?_
    exact .expect_bind (h.le_top htop) fun hclosing => .pure _ (by omega)

theorem body_follows (hn : enough + tokens.length + 2 ≤ n) (h : f.Allows d room 3)
    (htop : f.top = maxNesting) :
    Follows tokens f d d (c.index + 1) (Parser.body (Parser.statement room)) (body tokens n) c := by
  cases n with
  | zero => exact absurd hn (Nat.not_succ_le_zero _)
  | succ n =>
    rw [body]
    refine .call h fun h => .sees_bind (fun hk => ?_) fun hk => ?_
    · exact .congr (Parser.body_of_leftBrace hk) (block_follows hs (by omega) h htop)
    · refine .congr (Parser.body_of_other hk) (.token_bind (.congr (Parser.peek_bind _ _) ?_))
      refine (hs.statement n (by omega) (h.mono (by decide)) (h.le_top htop)).bind ?_
      intro only mid hmid
      exact .congr rfl (.previousSpan_bind (.pure _ hmid))

theorem otherwise_follows (hn : enough + tokens.length + 2 ≤ n) (h : f.Allows d room 2)
    (htop : f.top = maxNesting) :
    Follows tokens f d d c.index (Parser.otherwise (Parser.statement room) (Parser.elseIf room))
      (otherwise tokens n) c := by
  cases n with
  | zero => exact absurd hn (Nat.not_succ_le_zero _)
  | succ n =>
    rw [otherwise]
    refine .seesKeyword_bind (fun helse => ?_) fun helse => ?_
    · have heof : c.kind.isEof = false := isEof_eq_false helse rfl
      by_cases hif : c.advance.kind = .keyword .ifWord
      · refine .congr (Parser.otherwise_of_if helse hif) (.next_bind heof fun hindex => ?_)
        refine .seesKeyword_bind (fun _ => ?_) fun hne => absurd hif hne
        refine (hs.elseIf n (by omega) (h.mono (by decide)) (h.le_top htop) hif).bind ?_
        exact fun parts mid hmid => .pure _ (by omega)
      · refine .congr (Parser.otherwise_of_else helse hif) (.next_bind heof fun hindex => ?_)
        refine .seesKeyword_bind (fun heq => absurd heq hif) fun _ => ?_
        exact (block_follows hs (by omega) h htop).bind fun inner mid hmid => .pure _ (by omega)
    · refine .congr (q := pure Otherwise.nothing) (Parser.otherwise_of_other helse) ?_
      exact .pure Otherwise.nothing (Nat.le_refl _)

theorem branch_follows (hn : enough + tokens.length + 3 ≤ n) (h : f.Allows d room 3)
    (htop : f.top = maxNesting) (hk : c.kind = .keyword .ifWord) :
    Follows tokens f d d (c.index + 1)
      (Parser.branch room (Parser.statement room) (Parser.elseIf room)) (branch tokens n) c := by
  have hexpression := hs.expression
  cases n with
  | zero => exact absurd hn (Nat.not_succ_le_zero _)
  | succ n =>
    rw [branch, Parser.branch_eq]
    refine .call h fun h => ?_
    have heof : c.kind.isEof = false := isEof_eq_false hk rfl
    refine (parenthesised_follows (by omega) (h.mono (by decide)) htop heof).bind ?_
    intro condition mid hmid
    refine (block_follows hs (by omega) h htop).bind fun consequence mid' hmid' => ?_
    exact (otherwise_follows hs (by omega) h htop).bind fun alternative after hafter =>
      .pure _ (by omega)

theorem whileLoop_follows (hn : enough + tokens.length + 3 ≤ n) (h : f.Allows d room 4)
    (htop : f.top = maxNesting) (hk : c.kind = .keyword .whileWord) :
    Follows tokens f d d (c.index + 1)
      (do
        let condition ← Parser.parenthesised room
        let inner ← Parser.body (Parser.statement room)
        return .whileLoop condition inner) (whileLoop tokens n) c := by
  have hexpression := hs.expression
  cases n with
  | zero => exact absurd hn (Nat.not_succ_le_zero _)
  | succ n =>
    rw [whileLoop]
    refine .call h fun h => ?_
    have heof : c.kind.isEof = false := isEof_eq_false hk rfl
    refine (parenthesised_follows (by omega) (h.mono (by decide)) htop heof).bind ?_
    intro condition mid hmid
    exact (body_follows hs (by omega) h htop).bind fun inner after hafter => .pure _ (by omega)

theorem forLoop_follows (hn : enough + tokens.length + 3 ≤ n) (h : f.Allows d room 4)
    (htop : f.top = maxNesting) (hk : c.kind = .keyword .forWord) :
    Follows tokens f d d (c.index + 1) (Parser.forLoop room (Parser.statement room))
      (forLoop tokens n) c := by
  have hexpression := hs.expression
  cases n with
  | zero => exact absurd hn (Nat.not_succ_le_zero _)
  | succ n =>
    have hsteps : 16 * room < n := by omega
    rw [forLoop, Parser.forLoop]
    refine .call h fun h => .next_bind (isEof_eq_false hk rfl) fun hindex => ?_
    have hclause : f.call.Allows d room 1 := h.mono (by decide)
    refine .expect_bind (h.le_top htop) fun hopening => ?_
    refine (init_follows hsteps (h.mono (by decide)) htop).bind fun start m₁ h₁ => ?_
    refine .expect_bind (h.le_top htop) fun hfirst => ?_
    refine (clause_follows hsteps .semicolon hclause htop).bind fun condition m₂ h₂ => ?_
    refine .expect_bind (h.le_top htop) fun hsecond => ?_
    refine (clause_follows hsteps .rightParen hclause htop).bind fun increment m₃ h₃ => ?_
    refine .expect_bind (h.le_top htop) fun hclosing => ?_
    exact (body_follows hs (by omega) h htop).bind fun inner after hafter => .pure _ (by omega)

theorem statementKind_follows (hn : enough + tokens.length + 4 ≤ n) (h : f.Allows d room 5)
    (htop : f.top = maxNesting) :
    Follows tokens f d d (c.index + 1)
      (Parser.statementAt room (Parser.statement room) (Parser.elseIf room))
      (statementKind tokens n) c := by
  have hexpression := hs.expression
  cases n with
  | zero => exact absurd hn (Nat.not_succ_le_zero _)
  | succ n =>
    have hsteps : 16 * room < n := by omega
    rw [statementKind, Parser.statementAt]
    refine .call h fun h => .token_bind (.congr (Parser.peek_bind _ _) ?_)
    have hother : Follows tokens f.call d d (c.index + 1) (Parser.expressionStatement room)
        (expressionStatement tokens n) c :=
      expressionStatement_follows hsteps (h.mono (by decide)) htop
    generalize hk : c.current.kind = kind
    cases kind with
    | keyword role =>
      cases role with
      | letWord =>
        refine (binding_follows hsteps (h.mono (by decide)) htop hk).bind ?_
        intro definition mid hmid
        exact .eat_bind (fun hindex => .pure _ (by omega)) (.pure _ hmid)
      | printWord => exact print_follows hsteps (h.mono (by decide)) htop hk
      | ifWord =>
        exact (branch_follows hs (by omega) (h.mono (by decide)) htop hk).bind
          fun parts mid hmid => .pure _ hmid
      | whileWord => exact whileLoop_follows hs (by omega) h htop hk
      | forWord => exact forLoop_follows hs (by omega) h htop hk
      | _ => exact hother
    | symbol s =>
      cases s with
      | leftBrace =>
        exact (block_follows hs (by omega) (h.mono (by decide)) htop).bind
          fun inner mid hmid => .pure _ hmid
      | _ => exact hother
    | _ => exact hother

end

/-- By induction on the levels that are left. -/
theorem exists_statementsFollow (tokens : List Token) (room : Nat) :
    ∃ enough, StatementsFollow tokens room enough := by
  induction room with
  | zero =>
    refine ⟨1, Nat.one_pos, fun n hn {f d c} h htop => ?_, fun n hn {f d c} h htop _ => ?_⟩
    · obtain ⟨n, rfl⟩ := Nat.exists_eq_succ_of_ne_zero (Nat.ne_of_gt hn)
      rw [statement]
      exact .call h fun h => .nested_zero h htop
    · exact .nested_zero h htop
  | succ room ih =>
    obtain ⟨enough, hs⟩ := ih
    have hexpression := hs.expression
    refine ⟨enough + tokens.length + 16, by omega, fun n hn {f d c} h htop => ?_,
      fun n hn {f d c} h htop hk => ?_⟩
    · cases n with
      | zero => exact absurd hn (Nat.not_succ_le_zero _)
      | succ n =>
        rw [statement]
        refine .call h fun h => .nested_succ h htop fun h => ?_
        exact statementKind_follows hs (by omega) (h.mono (by decide)) rfl
    · refine .nested_succ h htop fun h => ?_
      exact branch_follows hs (by omega) (h.mono (by decide)) rfl hk

theorem program_follows (tokens : List Token) :
    ∃ enough, ∀ n, enough ≤ n → ∀ c : Cursor,
      Follows tokens ⟨0, 0, 0⟩ 0 0 c.index Parser.program (program tokens n) c := by
  obtain ⟨enough, hs⟩ := exists_statementsFollow tokens maxNesting
  refine ⟨enough + tokens.length, fun n hn c => ?_⟩
  have hallows : Frame.Allows ⟨0, 0, 0⟩ 0 maxNesting 1 := ⟨Nat.zero_add _, by decide⟩
  rw [program, Parser.program]
  refine .bind ?_ fun statements after hafter => .pure _ hafter
  exact statements_follow hs rfl hallows (Nat.le_refl 0) (Nat.le_add_left _ _) hn

end Counting

theorem stands_start (tokens : List Token) :
    Stands (closeTokens tokens) ⟨0, 0, 0⟩ 0 (Cursor.ofTokens tokens) .start := by
  have hplace := in_ofTokens tokens
  have hindex := Cursor.index_ofTokens tokens
  have hlt : 0 < (closeTokens tokens).length := by
    have := hplace.index_lt
    rwa [hindex] at this
  have hsound : Account.start.now.Sound (closeTokens tokens) :=
    ⟨hlt, nofun, Nat.zero_le _, Nat.le_refl 0, Nat.zero_le _⟩
  exact ⟨hplace, by rw [hindex]; rfl, hsound, List.forall_mem_singleton.mpr hsound⟩

/-- With enough steps the run ends with the program or the error of the tokens, and no level is left
    entered. -/
theorem exists_run_program (tokens : List Token) :
    ∃ enough account place,
      (Counting.program (closeTokens tokens) enough).run .start =
        some ((Program.parse tokens).mapError Halt.error, account) ∧
      Stands (closeTokens tokens) ⟨0, 0, 0⟩ 0 place account := by
  obtain ⟨enough, hprogram⟩ := Counting.program_follows (closeTokens tokens)
  have hfollows := hprogram enough (Nat.le_refl _) (Cursor.ofTokens tokens) _ (stands_start tokens)
  unfold Program.parse
  cases hparse : Parser.program (Cursor.ofTokens tokens) with
  | ok p after =>
    rw [hparse] at hfollows
    obtain ⟨account, hrun, hs, -⟩ := hfollows
    exact ⟨enough, account, after, hrun, hs⟩
  | error e place =>
    rw [hparse] at hfollows
    obtain ⟨account, hrun, d, hd, hs⟩ := hfollows
    obtain rfl := Nat.le_zero.mp hd
    exact ⟨enough, account, place, hrun, hs⟩

/-- On every list of tokens the parser comes to an end: from some number of steps on the run is
    always the same, and its result is the program or the error of the tokens. The next token is
    always one of the tokens and not after the first end of the input, the depth is at most the
    greatest one, and at least the number of levels that are entered, so that the productions that
    are under way are bounded by it too. A production that answers a value has read a token and
    leaves the depth as it was, and at the end the depth is zero, also with an error. -/
theorem Program.parse_keeps_counters (tokens : List Token) :
    ∃ enough result account,
      (∀ n, enough ≤ n →
        (Counting.program (closeTokens tokens) n).run .start = some (result, account)) ∧
      result = (Program.parse tokens).mapError Halt.error ∧
      account.now.depth = 0 ∧ account.now.opened = 0 ∧ account.now.calls = 0 ∧
      (∀ note ∈ account.notes, note.Sound (closeTokens tokens)) ∧
      ∀ now, .moment now ∈ account.notes → now.calls ≤ 8 * (maxNesting + 1) := by
  obtain ⟨enough, account, place, hrun, hs⟩ := exists_run_program tokens
  refine ⟨enough, _, account, fun n hn => Counting.program_below hn _ _ hrun, rfl,
    by rw [hs.now], by rw [hs.now], by rw [hs.now], hs.notes, fun now hmem => ?_⟩
  have hsound : now.Sound (closeTokens tokens) := hs.notes _ hmem
  exact hsound.calls_le_maxNesting

end Respell
