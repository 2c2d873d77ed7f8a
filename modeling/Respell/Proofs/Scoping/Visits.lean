-- SUMMARY: Runs that keep a record of every variable they look up or assign.
import Respell.Eval
import Respell.Proofs.Scoping.Resolution

/-!
# Recorded runs

The evaluator once more, with a record of the variables that it visits. The environment is looked
at and assigned only through `Environment.read` and `Environment.write`, and these note the visit.
Without its record, a recorded run is the run itself: that is what `execute_result` says.
-/

namespace Respell

/-- A variable is read or assigned: where it stands in the program, and the environment then. -/
structure Visit where
  site : Site
  access : Access
  env : Environment

/-- A result with the visits on the way to it, in order. -/
structure Recorded (α : Type) where
  result : α
  visits : List Visit

/-! ## Expressions -/

/-- What an evaluation gives: a value or an error, and the environment after it. -/
abbrev Answer := Except RuntimeError Value × Environment

/-- Look a variable up. -/
def Environment.read (env : Environment) (site : Site) (x : String) (span : Span) :
    Recorded Answer where
  result :=
    match env.lookup x with
    | some v => (.ok v, env)
    | none => (.error (.undefinedVariable x span), env)
  visits := [⟨site, ⟨false, x, span⟩, env⟩]

/-- Assign a variable. -/
def Environment.write (env : Environment) (site : Site) (x : String) (span : Span) (v : Value) :
    Recorded Answer where
  result :=
    match env.assign? x v with
    | some env => (.ok v, env)
    | none => (.error (.undefinedVariable x span), env)
  visits := [⟨site, ⟨true, x, span⟩, env⟩]

namespace Recorded

/-- A result on the way to which nothing is visited. -/
def quiet {α : Type} (a : α) : Recorded α :=
  ⟨a, []⟩

/-- Go on with the value of an expression, if it has one. -/
def withValue (r : Recorded Answer) (next : Value → Environment → Recorded Answer) :
    Recorded Answer :=
  match r.result with
  | (.error e, env) => ⟨(.error e, env), r.visits⟩
  | (.ok v, env) => ⟨(next v env).result, r.visits ++ (next v env).visits⟩

/-- Go on with the value of a run, if it has one. -/
def andThen (r : Recorded Run) (next : Value → Machine → Recorded Run) : Recorded Run :=
  match r.result with
  | .done v m => ⟨(next v m).result, r.visits ++ (next v m).visits⟩
  | .failed e m => ⟨.failed e m, r.visits⟩
  | .cut m => ⟨.cut m, r.visits⟩

@[simp] theorem andThen_result (r : Recorded Run) (next : Value → Machine → Recorded Run) :
    (r.andThen next).result = r.result.andThen fun v m => (next v m).result := by
  unfold andThen Run.andThen
  cases r.result <;> rfl

end Recorded

/-- Evaluate an expression, which stands at `site`, with a record. -/
def Expr.evaluate (site : Site) (env : Environment) : Expr → Recorded Answer
  | .number x _ => .quiet (.ok (.number x), env)
  | .text s _ => .quiet (.ok (.text s), env)
  | .bool b _ => .quiet (.ok (.bool b), env)
  | .name x span => env.read site x span
  | .assign x value span =>
    (value.evaluate (1 :: site) env).withValue fun v env => env.write (0 :: site) x span v
  | .binary op left right span =>
    (left.evaluate (0 :: site) env).withValue fun a env =>
      if op = .both ∧ a.truthy = false then .quiet (.ok (.bool false), env)
      else if op = .either ∧ a.truthy = true then .quiet (.ok (.bool true), env)
      else
        (right.evaluate (1 :: site) env).withValue fun b env =>
          .quiet (op.apply a b span right.span, env)
  | .unary op operand span =>
    (operand.evaluate (0 :: site) env).withValue fun v env => .quiet (op.apply v span, env)

theorem Expr.evaluate_result (site : Site) (env : Environment) (e : Expr) :
    (e.evaluate site env).result = e.eval env := by
  induction e generalizing site env with
  | number x s => rfl
  | text t s => rfl
  | bool b s => rfl
  | name x s => rfl
  | assign x value s ih =>
    simp only [evaluate, eval, Recorded.withValue, ih]
    rcases value.eval env with ⟨e | v, env'⟩ <;> rfl
  | binary op left right s ihl ihr =>
    simp only [evaluate, eval, Recorded.withValue, ihl]
    rcases left.eval env with ⟨e | a, env'⟩
    · rfl
    · dsimp only
      split
      · rfl
      · split
        · rfl
        · rw [ihr]
          rcases right.eval env' with ⟨e | b, env''⟩ <;> rfl
  | unary op operand s ih =>
    simp only [evaluate, eval, Recorded.withValue, ih]
    rcases operand.eval env with ⟨e | v, env'⟩ <;> rfl

/-! ## Statements -/

namespace Machine

/-- Evaluate an expression with a record. -/
def evaluate (m : Machine) (site : Site) (e : Expr) : Recorded Run where
  result :=
    match (e.evaluate site m.env).result with
    | (.ok v, env) => .done v { m with env }
    | (.error err, env) => .failed err { m with env }
  visits := (e.evaluate site m.env).visits

/-- Evaluate an expression with a record, if there is one. -/
def evaluate? (m : Machine) (site : Site) : Option Expr → Recorded Run
  | some e => m.evaluate site e
  | none => .quiet (.done .null m)

/-- Define a name with a record. -/
def bind (m : Machine) (site : Site) (b : Binding) : Recorded Run :=
  (m.evaluate site b.value).andThen fun v m =>
    .quiet (.done v { m with env := m.env.define b.name v })

/-- Run with a record inside a scope of its own. -/
def inRecordedScope (m : Machine) (body : Machine → Recorded Run) : Recorded Run where
  result := (body { m with env := m.env.push }).result.mapState
    fun m => { m with env := m.env.pop }
  visits := (body { m with env := m.env.push }).visits

/-- What a `for` does before it starts, with a record. -/
def begin (m : Machine) (site : Site) : Option Init → Recorded Run
  | some (.define b) => m.bind site b
  | some (.expr e) => m.evaluate site e
  | none => .quiet (.done .null m)

mutual

/-- Execute a statement, which stands at `site`, with a record. -/
def execute : Nat → Site → Stmt → Machine → Recorded Run
  | 0, _, _, m => .quiet (.cut m)
  | steps + 1, site, stmt, m =>
    match stmt with
    | .define b => m.bind (0 :: site) b
    | .print e => (m.evaluate (0 :: site) e).andThen fun v m => .quiet (.done .null (m.print v))
    | .block b => executeBlock steps (0 :: site) b m
    | .branch c b o => executeBranch steps site c b o m
    | .whileLoop c b => executeWhile steps site c b .null m
    | .forLoop i c n b =>
      m.inRecordedScope fun m =>
        (m.begin (0 :: site) i).andThen fun _ m => executeFor steps site c n b .null m
    | .expr e => m.evaluate (0 :: site) e

/-- Execute statements with a record; the first is child number `i`. -/
def executeAll : Nat → Site → Nat → List Stmt → Value → Machine → Recorded Run
  | 0, _, _, _, _, m => .quiet (.cut m)
  | _ + 1, _, _, [], last, m => .quiet (.done last m)
  | steps + 1, site, i, stmt :: stmts, _, m =>
    (execute steps (i :: site) stmt m).andThen fun v m => executeAll steps site (i + 1) stmts v m

/-- Execute a block with a record. -/
def executeBlock : Nat → Site → Block → Machine → Recorded Run
  | 0, _, _, m => .quiet (.cut m)
  | steps + 1, site, b, m =>
    m.inRecordedScope fun m => executeAll steps site 0 b.statements .null m

/-- Execute an `if` with a record. -/
def executeBranch : Nat → Site → Expr → Block → Otherwise → Machine → Recorded Run
  | 0, _, _, _, _, m => .quiet (.cut m)
  | steps + 1, site, c, b, o, m =>
    (m.evaluate (0 :: site) c).andThen fun v m =>
      if v.truthy then executeBlock steps (1 :: site) b m
      else
        match o with
        | .nothing => .quiet (.done .null m)
        | .block b => executeBlock steps (0 :: 2 :: site) b m
        | .branch c b o => executeBranch steps (2 :: site) c b o m

/-- Execute a `while` with a record. -/
def executeWhile : Nat → Site → Expr → Block → Value → Machine → Recorded Run
  | 0, _, _, _, _, m => .quiet (.cut m)
  | steps + 1, site, c, b, last, m =>
    (m.evaluate (0 :: site) c).andThen fun v m =>
      if v.truthy then
        (executeBlock steps (1 :: site) b m).andThen fun v m => executeWhile steps site c b v m
      else .quiet (.done last m)

/-- Execute the rounds of a `for` with a record. -/
def executeFor : Nat → Site → Option Expr → Option Expr → Block → Value → Machine → Recorded Run
  | 0, _, _, _, _, _, m => .quiet (.cut m)
  | steps + 1, site, c, n, b, last, m =>
    (m.evaluate? (1 :: site) c).andThen fun v m =>
      if holds c v then
        (executeBlock steps (3 :: site) b m).andThen fun v m =>
          (m.evaluate? (2 :: site) n).andThen fun _ m => executeFor steps site c n b v m
      else .quiet (.done last m)

end

/-- Execute a program with a record. -/
def runRecorded (m : Machine) (steps : Nat) (p : Program) : Recorded Run :=
  executeAll steps [] 0 p.statements .null m

/-! ## A run without its record -/

@[simp] theorem evaluate_result (m : Machine) (site : Site) (e : Expr) :
    (m.evaluate site e).result = m.eval e := by
  simp only [evaluate, eval, Expr.evaluate_result]
  rcases e.eval m.env with ⟨e | v, env⟩ <;> rfl

@[simp] theorem evaluate?_result (m : Machine) (site : Site) (e : Option Expr) :
    (m.evaluate? site e).result = m.eval? e := by
  cases e with
  | none => rfl
  | some e => exact m.evaluate_result site e

@[simp] theorem bind_result (m : Machine) (site : Site) (b : Binding) :
    (m.bind site b).result = m.define b := by
  simp [bind, define, Recorded.quiet]

@[simp] theorem begin_result (m : Machine) (site : Site) (i : Option Init) :
    (m.begin site i).result = m.init i := by
  match i with
  | some (.define b) => exact m.bind_result site b
  | some (.expr e) => exact m.evaluate_result site e
  | none => rfl

@[simp] theorem inRecordedScope_result (m : Machine) (body : Machine → Recorded Run) :
    (m.inRecordedScope body).result = m.inScope fun m => (body m).result := rfl

-- By recursion on the steps, like the executions themselves.
mutual

theorem execute_result (steps : Nat) (site : Site) (s : Stmt) (m : Machine) :
    (execute steps site s m).result = exec steps s m := by
  match steps, s with
  | 0, _ => rfl
  | steps + 1, .define b => exact m.bind_result (0 :: site) b
  | steps + 1, .print e => simp [execute, exec, Recorded.quiet]
  | steps + 1, .block b => exact executeBlock_result steps (0 :: site) b m
  | steps + 1, .branch c b o => exact executeBranch_result steps site c b o m
  | steps + 1, .whileLoop c b => exact executeWhile_result steps site c b .null m
  | steps + 1, .forLoop i c n b =>
    simp only [execute, exec, inRecordedScope_result, Recorded.andThen_result, begin_result,
      executeFor_result]
  | steps + 1, .expr e => exact m.evaluate_result (0 :: site) e

theorem executeAll_result (steps : Nat) (site : Site) (i : Nat) (ss : List Stmt) (last : Value)
    (m : Machine) : (executeAll steps site i ss last m).result = execAll steps ss last m := by
  match steps, ss with
  | 0, _ => rfl
  | steps + 1, [] => rfl
  | steps + 1, s :: ss =>
    simp only [executeAll, execAll, Recorded.andThen_result, execute_result, executeAll_result]

theorem executeBlock_result (steps : Nat) (site : Site) (b : Block) (m : Machine) :
    (executeBlock steps site b m).result = execBlock steps b m := by
  match steps with
  | 0 => rfl
  | steps + 1 =>
    simp only [executeBlock, execBlock, inRecordedScope_result, executeAll_result]

theorem executeBranch_result (steps : Nat) (site : Site) (c : Expr) (b : Block) (o : Otherwise)
    (m : Machine) : (executeBranch steps site c b o m).result = execBranch steps c b o m := by
  match steps with
  | 0 => rfl
  | steps + 1 =>
    simp only [executeBranch, execBranch, Recorded.andThen_result, evaluate_result]
    congr 1
    funext v m
    split
    · exact executeBlock_result steps (1 :: site) b m
    · match o with
      | .nothing => rfl
      | .block b => exact executeBlock_result steps (0 :: 2 :: site) b m
      | .branch c b o => exact executeBranch_result steps (2 :: site) c b o m

theorem executeWhile_result (steps : Nat) (site : Site) (c : Expr) (b : Block) (last : Value)
    (m : Machine) : (executeWhile steps site c b last m).result = execWhile steps c b last m := by
  match steps with
  | 0 => rfl
  | steps + 1 =>
    simp only [executeWhile, execWhile, Recorded.andThen_result, evaluate_result]
    congr 1
    funext v m
    split
    · simp only [Recorded.andThen_result, executeBlock_result, executeWhile_result]
    · rfl

theorem executeFor_result (steps : Nat) (site : Site) (c n : Option Expr) (b : Block)
    (last : Value) (m : Machine) :
    (executeFor steps site c n b last m).result = execFor steps c n b last m := by
  match steps with
  | 0 => rfl
  | steps + 1 =>
    simp only [executeFor, execFor, Recorded.andThen_result, evaluate?_result]
    congr 1
    funext v m
    split
    · simp only [Recorded.andThen_result, executeBlock_result, evaluate?_result,
        executeFor_result]
    · rfl

end

/-- A recorded run of a program is its run. -/
theorem runRecorded_result (m : Machine) (steps : Nat) (p : Program) :
    (m.runRecorded steps p).result = m.run steps p :=
  executeAll_result steps [] 0 p.statements .null m

end Machine

end Respell
