-- SUMMARY: The points that a run goes through, each with its state.
import Respell.Eval
import Mathlib.Logic.Relation

/-!
# The points of a run

To run a program is to work on its parts: statements, blocks, the rounds of loops, the expressions
in them. A point is a part that is about to be worked on and the state at that time, with all the
scopes that are open then. It leads to the points at which the parts of that part are worked on, as
far as what comes before them goes well. So every state that a run is ever in is the state at one of
its points or the state that the work on one of them leaves.
-/

namespace Respell

/-- What can be worked on. -/
inductive Task where
  | expr (e : Expr)
  | stmt (s : Stmt)
  /-- the statements that are left, and the value of the one before them -/
  | all (ss : List Stmt) (last : Value)
  | block (b : Block)
  | branch (c : Expr) (b : Block) (o : Otherwise)
  /-- the rounds of a `while` that are left, and the value of the one before them -/
  | whileRounds (c : Expr) (b : Block) (last : Value)
  /-- the rounds of a `for` that are left, and the value of the one before them -/
  | forRounds (c n : Option Expr) (b : Block) (last : Value)

/-- A task that is about to be worked on. -/
structure Point where
  state : Machine
  task : Task

namespace Point

/-- Work on the task, within a number of steps. -/
def run (steps : Nat) (p : Point) : Run :=
  match p.task with
  | .expr e => p.state.eval e
  | .stmt s => p.state.exec steps s
  | .all ss last => p.state.execAll steps ss last
  | .block b => p.state.execBlock steps b
  | .branch c b o => p.state.execBranch steps c b o
  | .whileRounds c b last => p.state.execWhile steps c b last
  | .forRounds c n b last => p.state.execFor steps c n b last

variable (steps : Nat) (m : Machine)

@[simp] theorem run_expr (e : Expr) : run steps ⟨m, .expr e⟩ = m.eval e := rfl

@[simp] theorem run_stmt (s : Stmt) : run steps ⟨m, .stmt s⟩ = m.exec steps s := rfl

@[simp] theorem run_all (ss : List Stmt) (last : Value) :
    run steps ⟨m, .all ss last⟩ = m.execAll steps ss last := rfl

@[simp] theorem run_block (b : Block) : run steps ⟨m, .block b⟩ = m.execBlock steps b := rfl

@[simp] theorem run_branch (c : Expr) (b : Block) (o : Otherwise) :
    run steps ⟨m, .branch c b o⟩ = m.execBranch steps c b o := rfl

@[simp] theorem run_whileRounds (c : Expr) (b : Block) (last : Value) :
    run steps ⟨m, .whileRounds c b last⟩ = m.execWhile steps c b last := rfl

@[simp] theorem run_forRounds (c n : Option Expr) (b : Block) (last : Value) :
    run steps ⟨m, .forRounds c n b last⟩ = m.execFor steps c n b last := rfl

end Point

/-- The state with one more scope open. -/
def Machine.opened (m : Machine) : Machine :=
  { m with env := m.env.push }

/-- The expression that is evaluated before a `for` starts. -/
def Init.value : Init → Expr
  | .define b => b.value
  | .expr e => e

/-- The run comes to a value, and what follows from there is `P`. -/
def Run.GoesOn (r : Run) (P : Value → Machine → Prop) : Prop :=
  ∃ v m, r = .done v m ∧ P v m

namespace Point

/-- An optional expression is about to be evaluated. -/
def optional (m : Machine) (e : Option Expr) (q : Point) : Prop :=
  ∃ e', e = some e' ∧ q = ⟨m, .expr e'⟩

/-- The work on the task comes to `q` as one of its parts. What comes before `q` takes no more than
    `steps` steps. -/
def Leads (steps : Nat) (p q : Point) : Prop :=
  let m := p.state
  match p.task with
  | .expr (.number _ _) | .expr (.text _ _) | .expr (.bool _ _) | .expr (.name _ _) => False
  | .expr (.assign _ e _) => q = ⟨m, .expr e⟩
  | .expr (.binary op left right _) =>
    q = ⟨m, .expr left⟩ ∨
      (m.eval left).GoesOn fun a m =>
        ¬(op = .both ∧ a.truthy = false) ∧ ¬(op = .either ∧ a.truthy = true) ∧
          q = ⟨m, .expr right⟩
  | .expr (.unary _ e _) => q = ⟨m, .expr e⟩
  | .stmt (.define b) => q = ⟨m, .expr b.value⟩
  | .stmt (.print e) => q = ⟨m, .expr e⟩
  | .stmt (.block b) => q = ⟨m, .block b⟩
  | .stmt (.branch c b o) => q = ⟨m, .branch c b o⟩
  | .stmt (.whileLoop c b) => q = ⟨m, .whileRounds c b .null⟩
  | .stmt (.forLoop i c n b) =>
    optional m.opened (i.map Init.value) q ∨
      (m.opened.init i).GoesOn fun _ m => q = ⟨m, .forRounds c n b .null⟩
  | .stmt (.expr e) => q = ⟨m, .expr e⟩
  | .all [] _ => False
  | .all (s :: ss) _ =>
    q = ⟨m, .stmt s⟩ ∨ (m.exec steps s).GoesOn fun v m => q = ⟨m, .all ss v⟩
  | .block b => q = ⟨m.opened, .all b.statements .null⟩
  | .branch c b o =>
    q = ⟨m, .expr c⟩ ∨
      (m.eval c).GoesOn fun v m =>
        if v.truthy then q = ⟨m, .block b⟩
        else
          match o with
          | .nothing => False
          | .block b => q = ⟨m, .block b⟩
          | .branch c b o => q = ⟨m, .branch c b o⟩
  | .whileRounds c b _ =>
    q = ⟨m, .expr c⟩ ∨
      (m.eval c).GoesOn fun v m => v.truthy = true ∧
        (q = ⟨m, .block b⟩ ∨
          (m.execBlock steps b).GoesOn fun w m => q = ⟨m, .whileRounds c b w⟩)
  | .forRounds c n b _ =>
    optional m c q ∨
      (m.eval? c).GoesOn fun v m => Machine.holds c v = true ∧
        (q = ⟨m, .block b⟩ ∨
          (m.execBlock steps b).GoesOn fun w m =>
            optional m n q ∨ (m.eval? n).GoesOn fun _ m => q = ⟨m, .forRounds c n b w⟩)

/-- The work on the task comes to `q`, as a part of a part of it and so on. -/
def Reaches : Point → Point → Prop :=
  Relation.ReflTransGen fun p q => ∃ steps, p.Leads steps q

end Point

end Respell
