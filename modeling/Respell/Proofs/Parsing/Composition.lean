-- SUMMARY: What the steps of a parser have and sequences keep, every production has.
import Respell.Proofs.Parsing.Soundness

/-!
# Properties of all productions

Every production is put together from a few steps that look at the token at the cursor, read it or
complain about it. So a property of parsers that these steps have, and that a sequence of parsers
keeps, is a property of every production. This is shown once for all such properties; only of lists
of statements, whose number is bounded by the tokens after the cursor, it takes a rule more.
-/

namespace Respell.Parser

/-- The steps of a parser have the property, and a sequence has it if its parts do. -/
structure Sequential (P : ∀ {α : Type}, Parser α → Prop) : Prop where
  pure : ∀ {α : Type} (a : α), P (Pure.pure a : Parser α)
  bind : ∀ {α β : Type} {p : Parser β} {k : β → Parser α}, P p → (∀ b, P (k b)) → P (p >>= k)
  peek : P peek
  previous : P previous
  next : P next
  failAt : ∀ {α : Type} (complaint : Complaint) (span : Span), P (failAt complaint span : Parser α)
  fail : ∀ {α : Type} (complaint : Complaint), P (fail complaint : Parser α)
  wanted : ∀ {α : Type} (what : Wanted), P (wanted what : Parser α)
  sees : ∀ s, P (sees s)
  eat : ∀ s, P (eat s)
  expect : ∀ s, P (expect s)

/-- Statements up to a token that stops them, which the end of the input does, have the property if
    one statement has it. -/
structure Compositional (P : ∀ {α : Type}, Parser α → Prop) : Prop extends Sequential P where
  statements : ∀ {room : Nat} {statement : Parser Stmt} {stops : Kind → Bool},
    StatementSound room statement → stops .eof = true → P statement →
    P (statements statement stops)

variable {P : ∀ {α : Type}, Parser α → Prop}

/-! ## Expressions -/

namespace Sequential

theorem tooDeep {α : Type} (h : Sequential P) (what : Construct) : P (tooDeep what : Parser α) :=
  h.fail (.tooDeep what)

-- By recursion as in the productions themselves.
mutual

theorem expression (h : Sequential P) (room : Nat) : P (expression room) := by
  cases room with
  | zero =>
    rw [Parser.expression]
    exact h.tooDeep .expression
  | succ room =>
    rw [Parser.expression]
    exact h.assignment room
termination_by (room, 0)

theorem assignment (h : Sequential P) (room : Nat) : P (assignment room) := by
  rw [Parser.assignment]
  refine h.bind (h.operation room Level.all) fun target => h.bind h.peek fun sign => ?_
  refine h.bind (h.eat .assign) fun eaten => ?_
  cases eaten with
  | false => exact h.pure target
  | true =>
    refine h.bind (h.expression room) fun value => ?_
    cases target with
    | name x s => exact h.pure _
    | _ => exact h.failAt .notAssignable _
termination_by (room, 4 + Level.all.length)

theorem operation (h : Sequential P) (room : Nat) (levels : List Level) :
    P (operation room levels) := by
  cases levels with
  | nil =>
    rw [Parser.operation]
    exact h.primary room
  | cons level levels =>
    rw [Parser.operation]
    exact h.bind (h.operation room levels) fun left => h.chain room level levels left
termination_by (room, 3 + levels.length)

theorem chain (h : Sequential P) (room : Nat) (level : Level) (levels : List Level)
    (left : Expr) : P (chain room level levels left) := by
  rw [chain.eq_def]
  refine h.bind h.peek fun t => ?_
  cases level.operator? t.kind with
  | none => exact h.pure left
  | some op =>
    cases room with
    | zero => exact h.tooDeep .expression
    | succ room =>
      refine h.bind h.next fun _ => h.bind (h.operation room levels) fun right => ?_
      exact h.chain room level levels _
termination_by (room, 0)

theorem primary (h : Sequential P) (room : Nat) : P (primary room) := by
  rw [primary.eq_def]
  refine h.bind h.peek fun t => ?_
  obtain ⟨kind, span⟩ := t
  cases kind with
  | number x => exact h.bind h.next fun _ => h.pure _
  | text s => exact h.bind h.next fun _ => h.pure _
  | word x => exact h.bind h.next fun _ => h.pure _
  | eof => exact h.wanted .expression
  | keyword role =>
    cases role with
    | trueWord => exact h.bind h.next fun _ => h.pure _
    | falseWord => exact h.bind h.next fun _ => h.pure _
    | _ => exact h.wanted .expression
  | symbol s =>
    cases s with
    | plus => exact h.unary room .plus span
    | minus => exact h.unary room .negate span
    | bang => exact h.unary room .not span
    | leftParen =>
      refine h.bind h.next fun _ => h.bind (h.expression room) fun inner => ?_
      exact h.bind (h.expect .rightParen) fun stop => h.pure _
    | _ => exact h.wanted .expression
termination_by (room, 2)

theorem unary (h : Sequential P) (room : Nat) (op : UnaryOp) (start : Span) :
    P (unary room op start) := by
  rw [unary.eq_def]
  refine h.bind h.next fun _ => ?_
  cases room with
  | zero => exact h.tooDeep .expression
  | succ room => exact h.bind (h.primary room) fun operand => h.pure _
termination_by (room, 1)

end

/-! ## Parts of statements -/

section Parts

variable {room : Nat} {statement : Parser Stmt}

theorem binding (h : Sequential P) : P (binding room) := by
  refine h.bind h.next fun start => h.bind h.peek fun t => ?_
  obtain ⟨kind, span⟩ := t
  cases kind with
  | word x =>
    refine h.bind h.next fun _ => h.bind (h.expect .assign) fun _ => ?_
    exact h.bind (h.expression room) fun value => h.pure _
  | _ => exact h.fail (.wantedName _)

theorem parenthesised (h : Sequential P) : P (parenthesised room) := by
  refine h.bind h.next fun _ => h.bind (h.expect .leftParen) fun _ => ?_
  refine h.bind (h.expression room) fun inner => ?_
  exact h.bind (h.expect .rightParen) fun _ => h.pure inner

theorem clause (h : Sequential P) (stop : Symbol) : P (clause room stop) := by
  refine h.bind (h.sees stop) fun seen => ?_
  cases seen with
  | true => exact h.pure none
  | false => exact h.bind (h.expression room) fun e => h.pure _

theorem init (h : Sequential P) : P (init room) := by
  refine h.bind h.peek fun t => ?_
  obtain ⟨kind, span⟩ := t
  have hexpr : P (do return some (.expr (← Parser.expression room)) : Parser (Option Init)) :=
    h.bind (h.expression room) fun e => h.pure _
  cases kind with
  | keyword role =>
    cases role with
    | letWord => exact h.bind h.binding fun b => h.pure _
    | _ => exact hexpr
  | symbol s =>
    cases s with
    | semicolon => exact h.pure none
    | _ => exact hexpr
  | _ => exact hexpr

theorem statementsWithin (h : Sequential P) (hs : P statement) (stops : Kind → Bool)
    (count : Nat) : P (statementsWithin statement stops count) := by
  induction count with
  | zero => exact h.pure []
  | succ count ih =>
    refine h.bind h.peek fun t => ?_
    split
    · exact h.pure []
    · exact h.bind hs fun first => h.bind ih fun rest => h.pure _

theorem expressionStatement (h : Sequential P) : P (expressionStatement room) := by
  refine h.bind (h.expression room) fun value => h.bind (h.eat .semicolon) fun eaten => ?_
  cases eaten with
  | true => exact h.pure _
  | false =>
    refine h.bind h.peek fun t => ?_
    split
    · exact h.pure _
    · exact h.wanted (.symbol .semicolon)

end Parts

end Sequential

/-! ## Statements -/

namespace Compositional

variable {room : Nat} {statement : Parser Stmt} {elseIf : Parser (Expr × Block × Otherwise)}

theorem block (h : Compositional P) (hsound : StatementSound room statement)
    (hs : P statement) : P (block statement) := by
  refine h.bind (h.expect .leftBrace) fun start => ?_
  refine h.bind (h.statements hsound rfl hs) fun inner => ?_
  exact h.bind (h.expect .rightBrace) fun stop => h.pure _

theorem body (h : Compositional P) (hsound : StatementSound room statement)
    (hs : P statement) : P (body statement) := by
  refine h.bind (h.sees .leftBrace) fun seen => ?_
  cases seen with
  | true => exact h.block hsound hs
  | false =>
    refine h.bind h.peek fun first => h.bind hs fun only => ?_
    exact h.bind h.previous fun last => h.pure _

theorem otherwise (h : Compositional P) (hsound : StatementSound room statement)
    (hs : P statement) (he : P elseIf) : P (otherwise statement elseIf) := by
  refine h.bind h.peek fun t => ?_
  split
  · refine h.bind h.next fun _ => h.bind h.peek fun t => ?_
    split
    · exact h.bind he fun parts => h.pure _
    · exact h.bind (h.block hsound hs) fun b => h.pure _
  · exact h.pure _

theorem branch (h : Compositional P) (hsound : StatementSound room statement)
    (hs : P statement) (he : P elseIf) : P (branch room statement elseIf) := by
  rw [branch_eq]
  refine h.bind h.parenthesised fun condition => ?_
  refine h.bind (h.block hsound hs) fun consequence => ?_
  exact h.bind (h.otherwise hsound hs he) fun alternative => h.pure _

theorem forLoop (h : Compositional P) (hsound : StatementSound room statement)
    (hs : P statement) : P (forLoop room statement) := by
  refine h.bind h.next fun _ => h.bind (h.expect .leftParen) fun _ => ?_
  refine h.bind h.init fun start => h.bind (h.expect .semicolon) fun _ => ?_
  refine h.bind (h.clause .semicolon) fun condition => h.bind (h.expect .semicolon) fun _ => ?_
  refine h.bind (h.clause .rightParen) fun increment => h.bind (h.expect .rightParen) fun _ => ?_
  exact h.bind (h.body hsound hs) fun inner => h.pure _

theorem statementAt (h : Compositional P) (hsound : StatementSound room statement)
    (hs : P statement) (he : P elseIf) : P (statementAt room statement elseIf) := by
  have hexpr : P (Parser.expressionStatement room) := h.expressionStatement
  refine h.bind h.peek fun t => ?_
  obtain ⟨kind, span⟩ := t
  cases kind with
  | keyword role =>
    cases role with
    | letWord => exact h.bind h.binding fun b => h.bind (h.eat .semicolon) fun _ => h.pure _
    | printWord =>
      exact h.bind h.parenthesised fun e => h.bind (h.eat .semicolon) fun _ => h.pure _
    | ifWord => exact h.bind (h.branch hsound hs he) fun parts => h.pure _
    | whileWord =>
      refine h.bind h.parenthesised fun condition => ?_
      exact h.bind (h.body hsound hs) fun inner => h.pure _
    | forWord => exact h.forLoop hsound hs
    | _ => exact hexpr
  | symbol s =>
    cases s with
    | leftBrace => exact h.bind (h.block hsound hs) fun b => h.pure _
    | _ => exact hexpr
  | _ => exact hexpr

theorem statement_elseIf (h : Compositional P) (room : Nat) :
    P (Parser.statement room) ∧ P (Parser.elseIf room) := by
  induction room with
  | zero => exact ⟨h.tooDeep .statement, h.tooDeep .statement⟩
  | succ room ih =>
    have hsound := (statement_elseIf_sound room).1
    exact ⟨h.statementAt hsound ih.1 ih.2, h.branch hsound ih.1 ih.2⟩

theorem program (h : Compositional P) : P program := by
  have hsound := (statement_elseIf_sound maxNesting).1
  exact h.bind (h.statements hsound rfl (h.statement_elseIf maxNesting).1) fun ss => h.pure _

end Compositional

end Respell.Parser
