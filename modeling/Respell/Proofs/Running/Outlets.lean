-- SUMMARY: Runs that hand every printed value to an outlet at once.
import Respell.Script

/-!
# Runs with an outlet

The evaluator once more, where a print hands its value over and keeps nothing of it. What takes the
values is an outlet: a state of any type, and a function `put` that changes it by one value. A run
with an outlet is the run itself, with the values that it prints put into the outlet in their order
(`Outlet.exec_deliver`). So an outlet cannot change what a run does, whatever becomes of the values.
-/

namespace Respell

/-- How a run with an outlet went, and what it left. -/
structure Delivered (σ : Type) where
  /-- a value or an error, unless the steps ran out -/
  result : Option (Except RuntimeError Value)
  env : Environment
  outlet : σ

namespace Delivered

variable {σ : Type}

/-- The steps ran out. -/
def cut (env : Environment) (out : σ) : Delivered σ :=
  ⟨none, env, out⟩

/-- There is a value. -/
def done (v : Value) (env : Environment) (out : σ) : Delivered σ :=
  ⟨some (.ok v), env, out⟩

/-- Go on with a value, if there is one. -/
def andThen (d : Delivered σ) (next : Value → Environment → σ → Delivered σ) : Delivered σ :=
  match d.result with
  | some (.ok v) => next v d.env d.outlet
  | _ => d

end Delivered

/-- A run, with the values that it printed put into an outlet. -/
def Run.deliver {σ : Type} (put : σ → Value → σ) (out : σ) : Run → Delivered σ
  | .done v m => ⟨some (.ok v), m.env, m.printed.toList.foldl put out⟩
  | .failed e m => ⟨some (.error e), m.env, m.printed.toList.foldl put out⟩
  | .cut m => ⟨none, m.env, m.printed.toList.foldl put out⟩

namespace Outlet

variable {σ : Type} (put : σ → Value → σ)

/-! ## Execution -/

/-- Evaluate an expression, which prints nothing. -/
def eval (e : Expr) (env : Environment) (out : σ) : Delivered σ :=
  ⟨some (e.eval env).1, (e.eval env).2, out⟩

/-- Evaluate an expression, if there is one. -/
def eval? : Option Expr → Environment → σ → Delivered σ
  | some e => eval e
  | none => .done .null

/-- Define a name. -/
def define (b : Binding) (env : Environment) (out : σ) : Delivered σ :=
  (eval b.value env out).andThen fun v env out => .done v (env.define b.name v) out

/-- Run inside a scope of its own. -/
def inScope (body : Environment → σ → Delivered σ) (env : Environment) (out : σ) : Delivered σ :=
  { body env.push out with env := (body env.push out).env.pop }

/-- What a `for` does before it starts. -/
def init : Option Init → Environment → σ → Delivered σ
  | some (.define b) => define b
  | some (.expr e) => eval e
  | none => .done .null

mutual

/-- Execute a statement. -/
def exec : Nat → Stmt → Environment → σ → Delivered σ
  | 0, _, env, out => .cut env out
  | steps + 1, stmt, env, out =>
    match stmt with
    | .define b => define b env out
    | .print e => (eval e env out).andThen fun v env out => .done .null env (put out v)
    | .block b => execBlock steps b env out
    | .branch c b o => execBranch steps c b o env out
    | .whileLoop c b => execWhile steps c b .null env out
    | .forLoop i c n b =>
      inScope (fun env out => (init i env out).andThen fun _ => execFor steps c n b .null) env out
    | .expr e => eval e env out

/-- Execute statements in order. -/
def execAll : Nat → List Stmt → Value → Environment → σ → Delivered σ
  | 0, _, _, env, out => .cut env out
  | _ + 1, [], last, env, out => .done last env out
  | steps + 1, stmt :: stmts, _, env, out =>
    (exec steps stmt env out).andThen fun v => execAll steps stmts v

/-- Execute a block. -/
def execBlock : Nat → Block → Environment → σ → Delivered σ
  | 0, _, env, out => .cut env out
  | steps + 1, b, env, out => inScope (execAll steps b.statements .null) env out

/-- Execute an `if`. -/
def execBranch : Nat → Expr → Block → Otherwise → Environment → σ → Delivered σ
  | 0, _, _, _, env, out => .cut env out
  | steps + 1, c, b, o, env, out =>
    (eval c env out).andThen fun v env out =>
      if v.truthy then execBlock steps b env out
      else
        match o with
        | .nothing => .done .null env out
        | .block b => execBlock steps b env out
        | .branch c b o => execBranch steps c b o env out

/-- Execute a `while`. -/
def execWhile : Nat → Expr → Block → Value → Environment → σ → Delivered σ
  | 0, _, _, _, env, out => .cut env out
  | steps + 1, c, b, last, env, out =>
    (eval c env out).andThen fun v env out =>
      if v.truthy then (execBlock steps b env out).andThen fun v => execWhile steps c b v
      else .done last env out

/-- Execute the rounds of a `for`. -/
def execFor : Nat → Option Expr → Option Expr → Block → Value → Environment → σ → Delivered σ
  | 0, _, _, _, _, env, out => .cut env out
  | steps + 1, c, n, b, last, env, out =>
    (eval? c env out).andThen fun v env out =>
      if Machine.holds c v then
        (execBlock steps b env out).andThen fun v env out =>
          (eval? n env out).andThen fun _ => execFor steps c n b v
      else .done last env out

end

/-! ## The same as the run -/

variable {put} {out : σ}

theorem deliver_andThen {r : Run} {next : Value → Machine → Run}
    {next' : Value → Environment → σ → Delivered σ}
    (h : ∀ v m, (next v m).deliver put out = next' v m.env (m.printed.toList.foldl put out)) :
    (r.andThen next).deliver put out = (r.deliver put out).andThen next' := by
  cases r with
  | done v m => exact h v m
  | failed e m => rfl
  | cut m => rfl

theorem deliver_eval (m : Machine) (e : Expr) :
    (m.eval e).deliver put out = eval e m.env (m.printed.toList.foldl put out) := by
  unfold Machine.eval eval
  rcases e.eval m.env with ⟨err | v, env⟩ <;> rfl

theorem deliver_eval? (m : Machine) (e : Option Expr) :
    (m.eval? e).deliver put out = eval? e m.env (m.printed.toList.foldl put out) := by
  cases e with
  | none => rfl
  | some e => exact deliver_eval m e

theorem deliver_define (m : Machine) (b : Binding) :
    (m.define b).deliver put out = define b m.env (m.printed.toList.foldl put out) := by
  rw [define, ← deliver_eval]
  exact deliver_andThen fun v m => rfl

theorem deliver_init (m : Machine) (i : Option Init) :
    (m.init i).deliver put out = init i m.env (m.printed.toList.foldl put out) := by
  match i with
  | some (.define b) => exact deliver_define m b
  | some (.expr e) => exact deliver_eval m e
  | none => rfl

theorem deliver_inScope {m : Machine} {body : Machine → Run}
    {body' : Environment → σ → Delivered σ}
    (h : ∀ m, (body m).deliver put out = body' m.env (m.printed.toList.foldl put out)) :
    (m.inScope body).deliver put out = inScope body' m.env (m.printed.toList.foldl put out) := by
  rw [inScope, ← h { m with env := m.env.push }, Machine.inScope]
  cases body { m with env := m.env.push } <;> rfl

-- By recursion on the steps, both executions side by side.
mutual

theorem exec_deliver (steps : Nat) (s : Stmt) (m : Machine) :
    (Machine.exec steps s m).deliver put out =
      exec put steps s m.env (m.printed.toList.foldl put out) := by
  match steps, s with
  | 0, _ => rfl
  | steps + 1, .define b => exact deliver_define m b
  | steps + 1, .print e =>
    rw [exec, ← deliver_eval]
    refine deliver_andThen fun v m => ?_
    -- The last value printed is the last one that is put into the outlet.
    simp only [Run.deliver, Machine.print, Array.toList_push, List.foldl_append, List.foldl_cons,
      List.foldl_nil, Delivered.done]
  | steps + 1, .block b => exact execBlock_deliver steps b m
  | steps + 1, .branch c b o => exact execBranch_deliver steps c b o m
  | steps + 1, .whileLoop c b => exact execWhile_deliver steps c b .null m
  | steps + 1, .forLoop i c n b =>
    rw [Machine.exec, exec]
    refine deliver_inScope fun m => ?_
    rw [← deliver_init]
    exact deliver_andThen fun _ m => execFor_deliver steps c n b .null m
  | steps + 1, .expr e => exact deliver_eval m e

theorem execAll_deliver (steps : Nat) (ss : List Stmt) (last : Value) (m : Machine) :
    (Machine.execAll steps ss last m).deliver put out =
      execAll put steps ss last m.env (m.printed.toList.foldl put out) := by
  match steps, ss with
  | 0, _ => rfl
  | steps + 1, [] => rfl
  | steps + 1, s :: ss =>
    rw [execAll, ← exec_deliver]
    exact deliver_andThen fun v m => execAll_deliver steps ss v m

theorem execBlock_deliver (steps : Nat) (b : Block) (m : Machine) :
    (Machine.execBlock steps b m).deliver put out =
      execBlock put steps b m.env (m.printed.toList.foldl put out) := by
  match steps with
  | 0 => rfl
  | steps + 1 => exact deliver_inScope fun m => execAll_deliver steps b.statements .null m

theorem execBranch_deliver (steps : Nat) (c : Expr) (b : Block) (o : Otherwise) (m : Machine) :
    (Machine.execBranch steps c b o m).deliver put out =
      execBranch put steps c b o m.env (m.printed.toList.foldl put out) := by
  match steps with
  | 0 => rfl
  | steps + 1 =>
    rw [execBranch, ← deliver_eval]
    refine deliver_andThen fun v m => ?_
    split
    · exact execBlock_deliver steps b m
    · match o with
      | .nothing => rfl
      | .block b => exact execBlock_deliver steps b m
      | .branch c b o => exact execBranch_deliver steps c b o m

theorem execWhile_deliver (steps : Nat) (c : Expr) (b : Block) (last : Value) (m : Machine) :
    (Machine.execWhile steps c b last m).deliver put out =
      execWhile put steps c b last m.env (m.printed.toList.foldl put out) := by
  match steps with
  | 0 => rfl
  | steps + 1 =>
    rw [execWhile, ← deliver_eval]
    refine deliver_andThen fun v m => ?_
    split
    · rw [← execBlock_deliver]
      exact deliver_andThen fun v m => execWhile_deliver steps c b v m
    · rfl

theorem execFor_deliver (steps : Nat) (c n : Option Expr) (b : Block) (last : Value)
    (m : Machine) :
    (Machine.execFor steps c n b last m).deliver put out =
      execFor put steps c n b last m.env (m.printed.toList.foldl put out) := by
  match steps with
  | 0 => rfl
  | steps + 1 =>
    rw [execFor, ← deliver_eval?]
    refine deliver_andThen fun v m => ?_
    split
    · rw [← execBlock_deliver]
      refine deliver_andThen fun v m => ?_
      rw [← deliver_eval?]
      exact deliver_andThen fun _ m => execFor_deliver steps c n b v m
    · rfl

end

end Outlet

/-! ## Scripts -/

/-- A report that keeps none of the printed values. -/
def Report.quiet (r : Report) : Report :=
  { r with printed := #[] }

namespace Script

variable {σ : Type} (put : σ → Value → σ)

end Script

end Respell
