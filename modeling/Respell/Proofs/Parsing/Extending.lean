-- SUMMARY: With more steps the parser that counts has the results it had, and possibly more.
import Respell.Proofs.Parsing.Counting

/-!
# More steps for the parser

A run that has a result has the same result with more steps, down to what has been noted. Each
production is made of productions with a step less, so the rules for putting parsers together carry
this from one number of steps to the next.
-/

namespace Respell

namespace Counting

/-- Where the first has a result, the second has the same. -/
def Below {α : Type} (m m' : Counting α) : Prop :=
  ∀ account r, m.run account = some r → m'.run account = some r

namespace Below

variable {α β : Type} {m m' m'' : Counting α}

theorem refl : Below m m := fun _ _ h => h

theorem trans (h : Below m m') (h' : Below m' m'') : Below m m'' :=
  fun account r hrun => h' account r (h account r hrun)

theorem beyond : Below beyond m := by
  intro account r hrun
  rw [run_beyond] at hrun
  contradiction

theorem bind {k k' : α → Counting β} (h : Below m m') (hk : ∀ a, Below (k a) (k' a)) :
    Below (m >>= k) (m' >>= k') := by
  intro account r hrun
  cases hm : m.run account with
  | none =>
    rw [run_bind_none hm] at hrun
    contradiction
  | some reply =>
    obtain ⟨result, after⟩ := reply
    have hm' := h account _ hm
    cases result with
    | ok a =>
      rw [run_bind_ok hm] at hrun
      rw [run_bind_ok hm']
      exact hk a after r hrun
    | error halt =>
      rw [run_bind_error hm] at hrun
      rw [run_bind_error hm']
      exact hrun

/-- What comes first is the same. -/
theorem after {m : Counting α} {k k' : α → Counting β} (hk : ∀ a, Below (k a) (k' a)) :
    Below (m >>= k) (m >>= k') :=
  bind refl hk

/-- What comes next is the same. -/
theorem before {k : α → Counting β} (h : Below m m') : Below (m >>= k) (m' >>= k) :=
  bind h fun _ => refl

theorem attempt (h : Below m m') : Below (attempt m) (attempt m') := by
  intro account r hrun
  cases hm : m.run account with
  | none =>
    rw [run_attempt_none hm] at hrun
    contradiction
  | some reply =>
    rw [run_attempt hm] at hrun
    rw [run_attempt (h account _ hm)]
    exact hrun

theorem call (h : Below m m') : Below (call m) (call m') :=
  after fun _ => after fun _ => before (attempt h)

theorem nested {tokens : List Token} {what : Construct} (h : Below m m') :
    Below (nested tokens what m) (nested tokens what m') :=
  after fun _ => after fun _ => after fun _ => before (attempt h)

end Below

variable {tokens : List Token}

/-! ## Expressions -/

mutual

theorem expression_below (n : Nat) : Below (expression tokens n) (expression tokens (n + 1)) := by
  cases n with
  | zero =>
    rw [expression]
    exact .beyond
  | succ n =>
    rw [expression, expression]
    exact .call (.nested (assignment_below n))
termination_by n

theorem assignment_below (n : Nat) : Below (assignment tokens n) (assignment tokens (n + 1)) := by
  cases n with
  | zero =>
    rw [assignment]
    exact .beyond
  | succ n =>
    rw [assignment, assignment]
    refine .call (.bind (operation_below n Level.all) fun target => .after fun assigns => ?_)
    cases assigns with
    | true => exact .after fun sign => .before (expression_below n)
    | false => exact .refl
termination_by n

theorem operation_below (n : Nat) (levels : List Level) :
    Below (operation tokens n levels) (operation tokens (n + 1) levels) := by
  cases n with
  | zero =>
    rw [operation]
    exact .beyond
  | succ n =>
    cases levels with
    | nil =>
      rw [operation, operation]
      exact primary_below n
    | cons level levels =>
      rw [operation, operation]
      refine .call (.bind (operation_below n levels) fun left => .after fun outer => ?_)
      exact .before (chain_below n level levels left)
termination_by n

theorem chain_below (n : Nat) (level : Level) (levels : List Level) (left : Expr) :
    Below (chain tokens n level levels left) (chain tokens (n + 1) level levels left) := by
  cases n with
  | zero =>
    rw [chain]
    exact .beyond
  | succ n =>
    rw [chain, chain]
    refine .after fun next => ?_
    cases level.operator? next.kind with
    | none => exact .refl
    | some op =>
      refine .after fun _ => .after fun _ => .bind (operation_below n levels) fun right => ?_
      exact chain_below n level levels _
termination_by n

theorem primary_below (n : Nat) : Below (primary tokens n) (primary tokens (n + 1)) := by
  cases n with
  | zero =>
    rw [primary]
    exact .beyond
  | succ n =>
    rw [primary, primary]
    refine .call (.after fun next => ?_)
    generalize next.kind = kind
    cases kind with
    | keyword role => cases role <;> exact .refl
    | symbol s =>
      cases s with
      | leftParen => exact .after fun _ => .before (expression_below n)
      | plus => exact unary_below n .plus next.span
      | minus => exact unary_below n .negate next.span
      | bang => exact unary_below n .not next.span
      | _ => exact .refl
    | _ => exact .refl
termination_by n

theorem unary_below (n : Nat) (op : UnaryOp) (start : Span) :
    Below (unary tokens n op start) (unary tokens (n + 1) op start) := by
  cases n with
  | zero =>
    rw [unary]
    exact .beyond
  | succ n =>
    rw [unary, unary]
    exact .call (.after fun _ => .before (.nested (primary_below n)))
termination_by n

end

/-! ## Statements -/

theorem binding_below (n : Nat) : Below (binding tokens n) (binding tokens (n + 1)) := by
  refine .call (.after fun start => .after fun next => ?_)
  generalize next.kind = kind
  cases kind with
  | word name => exact .after fun _ => .after fun _ => .before (expression_below n)
  | _ => exact .refl

theorem parenthesised_below (n : Nat) :
    Below (parenthesised tokens n) (parenthesised tokens (n + 1)) :=
  .after fun _ => .after fun _ => .before (expression_below n)

theorem init_below (n : Nat) : Below (init tokens n) (init tokens (n + 1)) := by
  refine .after fun next => ?_
  have hexpression : Below (do return some (.expr (← expression tokens n)) : Counting (Option Init))
      (do return some (.expr (← expression tokens (n + 1)))) :=
    .before (expression_below n)
  generalize next.kind = kind
  cases kind with
  | keyword role =>
    cases role with
    | letWord => exact .before (binding_below n)
    | _ => exact hexpression
  | symbol s =>
    cases s with
    | semicolon => exact .refl
    | _ => exact hexpression
  | _ => exact hexpression

theorem clause_below (n : Nat) (stop : Symbol) :
    Below (clause tokens n stop) (clause tokens (n + 1) stop) := by
  refine .after fun stops => ?_
  cases stops with
  | true => exact .refl
  | false => exact .before (expression_below n)

mutual

theorem statement_below (n : Nat) : Below (statement tokens n) (statement tokens (n + 1)) := by
  cases n with
  | zero =>
    rw [statement]
    exact .beyond
  | succ n =>
    rw [statement, statement]
    exact .call (.nested (statementKind_below n))
termination_by n

theorem statementKind_below (n : Nat) :
    Below (statementKind tokens n) (statementKind tokens (n + 1)) := by
  cases n with
  | zero =>
    rw [statementKind]
    exact .beyond
  | succ n =>
    rw [statementKind, statementKind]
    refine .call (.after fun next => ?_)
    have hother : Below (expressionStatement tokens n) (expressionStatement tokens (n + 1)) :=
      .before (expression_below n)
    generalize next.kind = kind
    cases kind with
    | keyword role =>
      cases role with
      | letWord => exact .before (binding_below n)
      | printWord => exact .call (.before (parenthesised_below n))
      | ifWord => exact .before (branch_below n)
      | whileWord => exact whileLoop_below n
      | forWord => exact forLoop_below n
      | _ => exact hother
    | symbol s =>
      cases s with
      | leftBrace => exact .before (block_below n)
      | _ => exact hother
    | _ => exact hother
termination_by n

theorem block_below (n : Nat) : Below (block tokens n) (block tokens (n + 1)) := by
  cases n with
  | zero =>
    rw [block]
    exact .beyond
  | succ n =>
    rw [block, block]
    exact .call (.after fun _ => .before (statements_below n Parser.endsBlock))
termination_by n

theorem statements_below (n : Nat) (stops : Kind → Bool) :
    Below (statements tokens n stops) (statements tokens (n + 1) stops) := by
  cases n with
  | zero =>
    rw [statements]
    exact .beyond
  | succ n =>
    rw [statements, statements]
    refine .after fun next => ?_
    cases stops next.kind with
    | true => exact .refl
    | false => exact .bind (statement_below n) fun first => .before (statements_below n stops)
termination_by n

theorem body_below (n : Nat) : Below (body tokens n) (body tokens (n + 1)) := by
  cases n with
  | zero =>
    rw [body]
    exact .beyond
  | succ n =>
    rw [body, body]
    refine .call (.after fun opens => ?_)
    cases opens with
    | true => exact block_below n
    | false => exact .after fun first => .before (statement_below n)
termination_by n

theorem branch_below (n : Nat) : Below (branch tokens n) (branch tokens (n + 1)) := by
  cases n with
  | zero =>
    rw [branch]
    exact .beyond
  | succ n =>
    rw [branch, branch]
    refine .call (.bind (parenthesised_below n) fun condition => ?_)
    exact .bind (block_below n) fun consequence => .before (otherwise_below n)
termination_by n

theorem otherwise_below (n : Nat) : Below (otherwise tokens n) (otherwise tokens (n + 1)) := by
  cases n with
  | zero =>
    rw [otherwise]
    exact .beyond
  | succ n =>
    rw [otherwise, otherwise]
    refine .after fun elses => ?_
    cases elses with
    | true =>
      refine .after fun _ => .after fun ifs => ?_
      cases ifs with
      | true => exact .before (.nested (branch_below n))
      | false => exact .before (block_below n)
    | false => exact .refl
termination_by n

theorem whileLoop_below (n : Nat) : Below (whileLoop tokens n) (whileLoop tokens (n + 1)) := by
  cases n with
  | zero =>
    rw [whileLoop]
    exact .beyond
  | succ n =>
    rw [whileLoop, whileLoop]
    exact .call (.bind (parenthesised_below n) fun condition => .before (body_below n))
termination_by n

theorem forLoop_below (n : Nat) : Below (forLoop tokens n) (forLoop tokens (n + 1)) := by
  cases n with
  | zero =>
    rw [forLoop]
    exact .beyond
  | succ n =>
    rw [forLoop, forLoop]
    refine .call (.after fun _ => .after fun _ => .bind (init_below n) fun start => ?_)
    refine .after fun _ => .bind (clause_below n .semicolon) fun condition => ?_
    refine .after fun _ => .bind (clause_below n .rightParen) fun increment => ?_
    exact .after fun _ => .before (body_below n)
termination_by n

end

/-- A program that is read in `n` steps is read so in all that are not fewer. -/
theorem program_below {n n' : Nat} (h : n ≤ n') : Below (program tokens n) (program tokens n') := by
  induction h with
  | refl => exact .refl
  | step _ ih => exact ih.trans (.before (statements_below _ Kind.isEof))

end Counting

end Respell
