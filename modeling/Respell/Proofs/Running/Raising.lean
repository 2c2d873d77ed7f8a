-- SUMMARY: A run fails exactly if an expression raises the error at one of its points.
import Respell.Proofs.Running.Points
import Respell.Proofs.Running.Steps

/-!
# Where errors come from

An expression raises an error if its operands have values and it has none: the variable is not
defined, or the operator does not take the operands. No statement makes an error up, and none
catches one. So a run fails with an error exactly if an expression raises that error at one of the
points of the run.
-/

namespace Respell

namespace Run

@[simp] theorem error?_done (v : Value) (m : Machine) : (Run.done v m).error? = none := rfl

@[simp] theorem error?_failed (err : RuntimeError) (m : Machine) :
    (Run.failed err m).error? = some err := rfl

@[simp] theorem error?_mapState (f : Machine → Machine) (r : Run) :
    (r.mapState f).error? = r.error? := by
  cases r <;> rfl

@[simp] theorem error?_andThen_done (r : Run) (f : Value → Machine → Value)
    (g : Value → Machine → Machine) :
    (r.andThen fun v m => .done (f v m) (g v m)).error? = r.error? := by
  cases r <;> rfl

/-- A sequence fails if its first part fails, or has a value and what follows fails. -/
theorem error?_andThen {r : Run} {next : Value → Machine → Run} {err : RuntimeError} :
    (r.andThen next).error? = some err ↔
      r.error? = some err ∨ r.GoesOn fun v m => (next v m).error? = some err := by
  cases r with
  | done v m =>
    constructor
    · exact fun h => .inr ⟨v, m, rfl, h⟩
    · rintro (h | ⟨_, _, ⟨⟩, h⟩)
      · cases h
      · exact h
  | failed e m =>
    constructor
    · exact .inl
    · rintro (h | ⟨_, _, ⟨⟩, _⟩)
      exact h
  | cut m =>
    constructor
    · exact .inl
    · rintro (h | ⟨_, _, ⟨⟩, _⟩)
      exact h

/-- The run that has come to a result of an operator. -/
def ofResult (r : Except RuntimeError Value) (m : Machine) : Run :=
  match r with
  | .ok v => .done v m
  | .error err => .failed err m

@[simp] theorem error?_ofResult {r : Except RuntimeError Value} {m : Machine}
    {err : RuntimeError} : (ofResult r m).error? = some err ↔ r = .error err := by
  cases r <;> simp [ofResult]

theorem error?_ite {c : Prop} [Decidable c] {r : Run} {v : Value} {m : Machine}
    {err : RuntimeError} :
    (if c then r else .done v m).error? = some err ↔ c ∧ r.error? = some err := by
  split <;> simp_all

theorem GoesOn.imp {r : Run} {P Q : Value → Machine → Prop} (h : r.GoesOn P)
    (hPQ : ∀ v m, P v m → Q v m) : r.GoesOn Q := by
  obtain ⟨v, m, hr, hP⟩ := h
  exact ⟨v, m, hr, hPQ v m hP⟩

theorem goesOn_congr {r : Run} {P Q : Value → Machine → Prop} (h : ∀ v m, P v m ↔ Q v m) :
    r.GoesOn P ↔ r.GoesOn Q :=
  ⟨fun hP => hP.imp fun v m => (h v m).mp, fun hQ => hQ.imp fun v m => (h v m).mpr⟩

theorem goesOn_or {r : Run} {P Q : Value → Machine → Prop} :
    (r.GoesOn fun v m => P v m ∨ Q v m) ↔ r.GoesOn P ∨ r.GoesOn Q := by
  constructor
  · rintro ⟨v, m, hr, hP | hQ⟩
    · exact .inl ⟨v, m, hr, hP⟩
    · exact .inr ⟨v, m, hr, hQ⟩
  · exact fun h => h.elim (·.imp fun _ _ => .inl) (·.imp fun _ _ => .inr)

theorem exists_goesOn {α : Type} {r : Run} {P : α → Value → Machine → Prop} {Q : α → Prop} :
    (∃ a, r.GoesOn (P a) ∧ Q a) ↔ r.GoesOn fun v m => ∃ a, P a v m ∧ Q a := by
  constructor
  · rintro ⟨a, ⟨v, m, hr, hP⟩, hQ⟩
    exact ⟨v, m, hr, a, hP, hQ⟩
  · rintro ⟨v, m, hr, a, hP, hQ⟩
    exact ⟨a, ⟨v, m, hr, hP⟩, hQ⟩

namespace Extends

variable {r r' : Run}

theorem error? (h : r.Extends r') {err : RuntimeError} (hr : r.error? = some err) :
    r'.error? = some err := by
  cases r with
  | failed e m => rw [h rfl]; exact hr
  | _ => cases hr

theorem goesOn (h : r.Extends r') {P : Value → Machine → Prop} (hr : r.GoesOn P) :
    r'.GoesOn P := by
  obtain ⟨v, m, rfl, hP⟩ := hr
  exact ⟨v, m, h rfl, hP⟩

end Extends

end Run

/-! ## Expressions, operand by operand -/

namespace Machine

variable (m : Machine)

theorem eval_assign (x : String) (e : Expr) (span : Span) :
    m.eval (.assign x e span) = (m.eval e).andThen fun v m =>
      match m.env.assign? x v with
      | some env => .done v { m with env }
      | none => .failed (.undefinedVariable x span) m := by
  simp only [eval, Expr.eval]
  generalize e.eval m.env = r
  obtain ⟨err | v, env⟩ := r
  · rfl
  · simp only [Run.andThen]
    cases env.assign? x v <;> rfl

theorem eval_unary (op : UnaryOp) (e : Expr) (span : Span) :
    m.eval (.unary op e span) = (m.eval e).andThen fun v m => .ofResult (op.apply v span) m := by
  simp only [eval, Expr.eval]
  generalize e.eval m.env = r
  obtain ⟨err | v, env⟩ := r
  · rfl
  · simp only [Run.andThen]
    cases op.apply v span <;> rfl

theorem eval_binary (op : BinaryOp) (left right : Expr) (span : Span) :
    m.eval (.binary op left right span) = (m.eval left).andThen fun a m =>
      if op = .both ∧ a.truthy = false then .done (.bool false) m
      else if op = .either ∧ a.truthy = true then .done (.bool true) m
      else (m.eval right).andThen fun b m => .ofResult (op.apply a b span right.span) m := by
  simp only [eval, Expr.eval]
  generalize left.eval m.env = r
  obtain ⟨err | a, mid⟩ := r
  · rfl
  · simp only [Run.andThen]
    by_cases hboth : op = .both ∧ a.truthy = false
    · simp only [if_pos hboth]
    · by_cases heither : op = .either ∧ a.truthy = true
      · simp only [if_neg hboth, if_pos heither]
      · simp only [if_neg hboth, if_neg heither]
        generalize right.eval mid = r
        obtain ⟨err | b, env⟩ := r
        · rfl
        · dsimp only
          cases op.apply a b span right.span <;> rfl

end Machine

namespace Point

/-- The task is an expression that raises the error itself, once its operands have values. -/
def Raises (err : RuntimeError) (p : Point) : Prop :=
  let m := p.state
  match p.task with
  | .expr (.name x span) => m.env.lookup x = none ∧ err = .undefinedVariable x span
  | .expr (.assign x e span) =>
    (m.eval e).GoesOn fun _ m => m.env.lookup x = none ∧ err = .undefinedVariable x span
  | .expr (.binary op left right span) =>
    (m.eval left).GoesOn fun a m =>
      ¬(op = .both ∧ a.truthy = false) ∧ ¬(op = .either ∧ a.truthy = true) ∧
        (m.eval right).GoesOn fun b _ => op.apply a b span right.span = .error err
  | .expr (.unary op e span) => (m.eval e).GoesOn fun v _ => op.apply v span = .error err
  | _ => False

/-- The work on the task comes to the error. -/
def Fails (err : RuntimeError) (p : Point) : Prop :=
  ∃ steps, (p.run steps).error? = some err

variable {err : RuntimeError} {p q : Point}

theorem exists_optional {m : Machine} {e : Option Expr} {n : Nat} :
    (∃ q, optional m e q ∧ (q.run n).error? = some err) ↔ (m.eval? e).error? = some err := by
  cases e with
  | none => simp [optional, Machine.eval?]
  | some e => simp [optional, Machine.eval?]

theorem init_error? (m : Machine) (i : Option Init) :
    (m.init i).error? = (m.eval? (i.map Init.value)).error? := by
  match i with
  | none => rfl
  | some (.expr e) => rfl
  | some (.define b) => simp [Machine.init, Machine.define, Machine.eval?, Init.value]

/-- A task other than an expression fails if a part of it does. -/
theorem run_error?_iff (n : Nat) (hp : ∀ e, p.task ≠ .expr e) :
    (p.run (n + 1)).error? = some err ↔ ∃ q, p.Leads n q ∧ (q.run n).error? = some err := by
  obtain ⟨m, task⟩ := p
  cases task with
  | expr e => exact absurd rfl (hp e)
  | stmt s =>
    cases s with
    | define b => simp [Machine.exec, Machine.define, Leads]
    | print e => simp [Machine.exec, Leads]
    | forLoop i c k b =>
      simp only [run_stmt, Machine.exec, Machine.inScope, Run.error?_mapState, Run.error?_andThen,
        Leads, or_and_right, exists_or, exists_optional, Run.exists_goesOn, exists_eq_left,
        init_error?, run_forRounds]
      rfl
    | _ => simp [Machine.exec, Leads]
  | all ss last =>
    cases ss with
    | nil => simp [Machine.execAll, Leads]
    | cons s ss =>
      simp [Machine.execAll, Run.error?_andThen, Leads, or_and_right, exists_or,
        Run.exists_goesOn]
  | block b =>
    simp [Machine.execBlock, Machine.inScope, Leads]
    rfl
  | branch c b o =>
    simp only [run_branch, Machine.execBranch, Run.error?_andThen, Leads, or_and_right, exists_or,
      exists_eq_left, Run.exists_goesOn, run_expr]
    refine or_congr_right (Run.goesOn_congr fun v m => ?_)
    cases v.truthy with
    | true => simp
    | false => cases o <;> simp
  | whileRounds c b last =>
    simp [Machine.execWhile, Run.error?_andThen, Run.error?_ite, Leads, or_and_right, exists_or,
      Run.exists_goesOn, and_assoc]
  | forRounds c k b last =>
    simp [Machine.execFor, Run.error?_andThen, Run.error?_ite, Leads, or_and_right, exists_or,
      Run.exists_goesOn, and_assoc, exists_optional]

/-- An expression fails if it raises the error itself or an operand fails. -/
theorem eval_error?_iff (m : Machine) (e : Expr) (n : Nat) :
    (m.eval e).error? = some err ↔
      (⟨m, .expr e⟩ : Point).Raises err ∨
        ∃ q, (⟨m, .expr e⟩ : Point).Leads n q ∧ (q.run n).error? = some err := by
  cases e with
  | number x span => simp [Machine.eval, Expr.eval, Raises, Leads]
  | text s span => simp [Machine.eval, Expr.eval, Raises, Leads]
  | bool b span => simp [Machine.eval, Expr.eval, Raises, Leads]
  | name x span =>
    cases hx : m.env.lookup x <;> simp [Machine.eval, Expr.eval, Raises, Leads, hx, eq_comm]
  | assign x e span =>
    rw [Machine.eval_assign, Run.error?_andThen, or_comm]
    simp only [Raises, Leads, exists_eq_left, run_expr]
    refine or_congr_left (Run.goesOn_congr fun v m => ?_)
    cases ha : m.env.assign? x v with
    | none => simp [Environment.assign?_eq_none_iff.mp ha, eq_comm]
    | some after =>
      have hx : m.env.lookup x ≠ none := by rw [Ne, ← Environment.assign?_eq_none_iff, ha]; simp
      simp [hx]
  | binary op left right span =>
    rw [Machine.eval_binary, Run.error?_andThen]
    simp only [Raises, Leads, or_and_right, exists_or, exists_eq_left, Run.exists_goesOn,
      and_assoc, exists_and_left, run_expr]
    rw [or_left_comm, ← Run.goesOn_or]
    refine or_congr_right (Run.goesOn_congr fun a m => ?_)
    by_cases hboth : op = .both ∧ a.truthy = false
    · simp [hboth]
    · by_cases heither : op = .either ∧ a.truthy = true
      · simp [heither]
      · rw [if_neg hboth, if_neg heither, Run.error?_andThen]
        simp only [hboth, heither, not_false_eq_true, true_and, Run.error?_ofResult]
        exact or_comm
  | unary op e span =>
    rw [Machine.eval_unary, Run.error?_andThen, or_comm]
    simp only [Raises, Leads, exists_eq_left, run_expr, Run.error?_ofResult]

theorem run_extends (p : Point) (n : Nat) : (p.run n).Extends (p.run (n + 1)) := by
  obtain ⟨m, task⟩ := p
  cases task with
  | expr e => exact .refl _
  | stmt s => exact Machine.exec_extends n s m
  | all ss last => exact Machine.execAll_extends n ss last m
  | block b => exact Machine.execBlock_extends n b m
  | branch c b o => exact Machine.execBranch_extends n c b o m
  | whileRounds c b last => exact Machine.execWhile_extends n c b last m
  | forRounds c k b last => exact Machine.execFor_extends n c k b last m

theorem run_of_le (p : Point) {n k : Nat} (hle : n ≤ k) : (p.run n).Extends (p.run k) :=
  .of_le p.run_extends hle

theorem Leads.of_le {n k : Nat} (hle : n ≤ k) (h : p.Leads n q) : p.Leads k q := by
  obtain ⟨m, task⟩ := p
  cases task with
  | all ss last =>
    cases ss with
    | nil => cases h
    | cons s ss => exact h.imp_right (run_of_le ⟨m, .stmt s⟩ hle).goesOn
  | whileRounds c b last =>
    exact h.imp_right (·.imp fun v m =>
      And.imp_right (Or.imp_right (run_of_le ⟨m, .block b⟩ hle).goesOn))
  | forRounds c i b last =>
    exact h.imp_right (·.imp fun v m =>
      And.imp_right (Or.imp_right (run_of_le ⟨m, .block b⟩ hle).goesOn))
  | expr e => cases e <;> exact h
  | stmt s => cases s <;> exact h
  | _ => exact h

/-! ## Errors and points -/

theorem Leads.reaches {n : Nat} (h : p.Leads n q) {r : Point} (hr : q.Reaches r) : p.Reaches r :=
  .head ⟨n, h⟩ hr

theorem exists_raises_of_eval {e : Expr} {m : Machine} (h : (m.eval e).error? = some err) :
    ∃ q, (⟨m, .expr e⟩ : Point).Reaches q ∧ q.Raises err := by
  induction e generalizing m with
  | number x span => cases h
  | text s span => cases h
  | bool b span => cases h
  | name x span =>
    obtain h | ⟨_, ⟨⟩, _⟩ := (eval_error?_iff m _ 0).mp h
    exact ⟨_, .refl, h⟩
  | assign x e span ih =>
    obtain h | ⟨q, hq, h⟩ := (eval_error?_iff m _ 0).mp h
    · exact ⟨_, .refl, h⟩
    · obtain rfl : q = ⟨m, .expr e⟩ := id hq
      obtain ⟨r, hr, hraises⟩ := ih h
      exact ⟨r, hq.reaches hr, hraises⟩
  | binary op left right span ihl ihr =>
    obtain h | ⟨q, hq, h⟩ := (eval_error?_iff m _ 0).mp h
    · exact ⟨_, .refl, h⟩
    · obtain rfl | ⟨a, m', ha, hboth, heither, rfl⟩ := id hq
      · obtain ⟨r, hr, hraises⟩ := ihl h
        exact ⟨r, hq.reaches hr, hraises⟩
      · obtain ⟨r, hr, hraises⟩ := ihr h
        exact ⟨r, hq.reaches hr, hraises⟩
  | unary op e span ih =>
    obtain h | ⟨q, hq, h⟩ := (eval_error?_iff m _ 0).mp h
    · exact ⟨_, .refl, h⟩
    · obtain rfl : q = ⟨m, .expr e⟩ := id hq
      obtain ⟨r, hr, hraises⟩ := ih h
      exact ⟨r, hq.reaches hr, hraises⟩

theorem exists_raises_of_run {n : Nat} (h : (p.run n).error? = some err) :
    ∃ q, p.Reaches q ∧ q.Raises err := by
  induction n generalizing p with
  | zero =>
    obtain ⟨m, task⟩ := p
    cases task with
    | expr e => exact exists_raises_of_eval h
    | _ => cases h
  | succ n ih =>
    obtain ⟨m, task⟩ := p
    by_cases hexpr : ∃ e, task = .expr e
    · obtain ⟨e, rfl⟩ := hexpr
      exact exists_raises_of_eval h
    · obtain ⟨q, hq, h⟩ := (run_error?_iff n fun e he => hexpr ⟨e, he⟩).mp h
      obtain ⟨r, hr, hraises⟩ := ih h
      exact ⟨r, hq.reaches hr, hraises⟩

theorem Raises.fails (h : p.Raises err) : p.Fails err := by
  obtain ⟨m, task⟩ := p
  cases task with
  | expr e => exact ⟨0, (eval_error?_iff m e 0).mpr (.inl h)⟩
  | _ => cases h

theorem Leads.fails {steps : Nat} (h : p.Leads steps q) (hq : q.Fails err) : p.Fails err := by
  obtain ⟨n, hq⟩ := hq
  have hlead := h.of_le (Nat.le_max_left steps n)
  have herror := (q.run_of_le (Nat.le_max_right steps n)).error? hq
  refine ⟨max steps n + 1, ?_⟩
  obtain ⟨m, task⟩ := p
  by_cases hexpr : ∃ e, task = .expr e
  · obtain ⟨e, rfl⟩ := hexpr
    exact (eval_error?_iff m e _).mpr (.inr ⟨q, hlead, herror⟩)
  · exact (run_error?_iff _ fun e he => hexpr ⟨e, he⟩).mpr ⟨q, hlead, herror⟩

/-- The work on a task comes to an error exactly if an expression raises it at one of the points
    that the work comes to. -/
theorem fails_iff (p : Point) (err : RuntimeError) :
    p.Fails err ↔ ∃ q, p.Reaches q ∧ q.Raises err := by
  constructor
  · rintro ⟨n, h⟩
    exact exists_raises_of_run h
  · rintro ⟨q, hreaches, hraises⟩
    induction hreaches using Relation.ReflTransGen.head_induction_on with
    | refl => exact hraises.fails
    | head hlead _ ih =>
      obtain ⟨_, hlead⟩ := hlead
      exact hlead.fails ih

end Point

end Respell
