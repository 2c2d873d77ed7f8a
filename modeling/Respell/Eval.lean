-- SUMMARY: Evaluating expressions and executing statements.
import Respell.Environment

/-!
# Running programs

An expression always has a value or an error, and all it can change is the environment. A statement
may also print, and a loop may go on for ever: execution is bounded by a number of steps, and a run
that is cut short keeps the state that it had reached.
-/

namespace Respell

/-! ## Expressions -/

/-- The value of an expression, or its error, and the environment after it. `&&` and `||` look at
    their right operand only if the left one leaves the matter open. -/
def Expr.eval (env : Environment) : Expr → Except RuntimeError Value × Environment
  | .number x _ => (.ok (.number x), env)
  | .text s _ => (.ok (.text s), env)
  | .bool b _ => (.ok (.bool b), env)
  | .name x span =>
    match env.lookup x with
    | some v => (.ok v, env)
    | none => (.error (.undefinedVariable x span), env)
  | .assign x value span =>
    match value.eval env with
    | (.error e, env) => (.error e, env)
    | (.ok v, env) =>
      match env.assign? x v with
      | some env => (.ok v, env)
      | none => (.error (.undefinedVariable x span), env)
  | .binary op left right span =>
    match left.eval env with
    | (.error e, env) => (.error e, env)
    | (.ok a, env) =>
      if op = .both ∧ a.truthy = false then (.ok (.bool false), env)
      else if op = .either ∧ a.truthy = true then (.ok (.bool true), env)
      else
        match right.eval env with
        | (.error e, env) => (.error e, env)
        | (.ok b, env) => (op.apply a b span right.span, env)
  | .unary op operand span =>
    match operand.eval env with
    | (.error e, env) => (.error e, env)
    | (.ok v, env) => (op.apply v span, env)

/-! ## States and runs -/

/-- What a running program can change. -/
structure Machine where
  env : Environment
  /-- the values that were printed, in order -/
  printed : Array Value
deriving Inhabited

/-- How an execution went, and the state that it left. -/
inductive Run where
  | done (value : Value) (state : Machine)
  | failed (error : RuntimeError) (state : Machine)
  /-- the steps ran out -/
  | cut (state : Machine)

namespace Run

/-- Go on with a value, if there is one. -/
@[inline] def andThen (r : Run) (next : Value → Machine → Run) : Run :=
  match r with
  | .done v m => next v m
  | .failed e m => .failed e m
  | .cut m => .cut m

/-- Change the state that a run left, however it went. -/
def mapState (f : Machine → Machine) : Run → Run
  | .done v m => .done v (f m)
  | .failed e m => .failed e (f m)
  | .cut m => .cut (f m)

/-- The state that a run left. -/
def state : Run → Machine
  | .done _ m => m
  | .failed _ m => m
  | .cut m => m

end Run

namespace Machine

/-- The state before any program. -/
def start : Machine :=
  ⟨.empty, #[]⟩

/-- Evaluate an expression. -/
def eval (m : Machine) (e : Expr) : Run :=
  match e.eval m.env with
  | (.ok v, env) => .done v { m with env }
  | (.error err, env) => .failed err { m with env }

/-- Evaluate an expression, if there is one. -/
def eval? (m : Machine) : Option Expr → Run
  | some e => m.eval e
  | none => .done .null m

/-- Define a name; the definition has the value that the name gets. -/
def define (m : Machine) (b : Binding) : Run :=
  (m.eval b.value).andThen fun v m => .done v { m with env := m.env.define b.name v }

/-- Print a value. -/
def print (m : Machine) (v : Value) : Machine :=
  { m with printed := m.printed.push v }

/-- Run inside a scope of its own, which is closed however the run goes. -/
def inScope (m : Machine) (body : Machine → Run) : Run :=
  (body { m with env := m.env.push }).mapState fun m => { m with env := m.env.pop }

/-- What a `for` does before it starts. -/
def init (m : Machine) : Option Init → Run
  | some (.define b) => m.define b
  | some (.expr e) => m.eval e
  | none => .done .null m

/-- Whether a loop goes on: a condition that is left out holds. -/
def holds (condition : Option Expr) (v : Value) : Bool :=
  condition.isNone || v.truthy

/-! ## Statements -/

mutual

/-- Execute a statement within a number of steps. -/
def exec : Nat → Stmt → Machine → Run
  | 0, _, m => .cut m
  | steps + 1, stmt, m =>
    match stmt with
    | .define b => m.define b
    | .print e => (m.eval e).andThen fun v m => .done .null (m.print v)
    | .block b => execBlock steps b m
    | .branch c b o => execBranch steps c b o m
    | .whileLoop c b => execWhile steps c b .null m
    | .forLoop i c n b =>
      m.inScope fun m => (m.init i).andThen fun _ m => execFor steps c n b .null m
    | .expr e => m.eval e

/-- Execute statements in order; the value is that of the last one, or `last` if there is none. -/
def execAll : Nat → List Stmt → Value → Machine → Run
  | 0, _, _, m => .cut m
  | _ + 1, [], last, m => .done last m
  | steps + 1, stmt :: stmts, _, m =>
    (exec steps stmt m).andThen fun v m => execAll steps stmts v m

/-- Execute a block in a scope of its own. -/
def execBlock : Nat → Block → Machine → Run
  | 0, _, m => .cut m
  | steps + 1, b, m => m.inScope fun m => execAll steps b.statements .null m

/-- Execute an `if`. -/
def execBranch : Nat → Expr → Block → Otherwise → Machine → Run
  | 0, _, _, _, m => .cut m
  | steps + 1, c, b, o, m =>
    (m.eval c).andThen fun v m =>
      if v.truthy then execBlock steps b m
      else
        match o with
        | .nothing => .done .null m
        | .block b => execBlock steps b m
        | .branch c b o => execBranch steps c b o m

/-- Execute a `while`; the value is that of the last round, or `last` if there is none. -/
def execWhile : Nat → Expr → Block → Value → Machine → Run
  | 0, _, _, _, m => .cut m
  | steps + 1, c, b, last, m =>
    (m.eval c).andThen fun v m =>
      if v.truthy then
        (execBlock steps b m).andThen fun v m => execWhile steps c b v m
      else .done last m

/-- Execute the rounds of a `for`; the value is that of the last round, or `last`. -/
def execFor : Nat → Option Expr → Option Expr → Block → Value → Machine → Run
  | 0, _, _, _, _, m => .cut m
  | steps + 1, c, n, b, last, m =>
    (m.eval? c).andThen fun v m =>
      if holds c v then
        (execBlock steps b m).andThen fun v m =>
          (m.eval? n).andThen fun _ m => execFor steps c n b v m
      else .done last m

end

/-- Execute a program. -/
def run (m : Machine) (steps : Nat) (p : Program) : Run :=
  execAll steps p.statements .null m

end Machine

end Respell
