-- SUMMARY: What a statement can do to the scopes around it, however it ends.
import Respell.Proofs.Running.Steps
import Respell.Proofs.Scoping.Lexical

/-!
# Scope discipline

A statement closes every scope that it opens, also when it fails inside of it. So all that it leaves
behind are new names at the end of the innermost scope, if it is a definition, and new values of the
variables that it names as targets. One relation between the environments before and after says
this; it holds of every step of a run and is closed under sequence and scopes.
-/

namespace Respell

/-! ## The variables that may change -/

/-- The variables that an expression assigns. -/
def Expr.targets : Expr → List String
  | .number _ _ => []
  | .text _ _ => []
  | .bool _ _ => []
  | .name _ _ => []
  | .assign x value _ => x :: value.targets
  | .binary _ left right _ => left.targets ++ right.targets
  | .unary _ operand _ => operand.targets

/-- The variables that an expression assigns, if there is one. -/
def targetsOf : Option Expr → List String
  | some e => e.targets
  | none => []

/-- The variable that is defined, and those that its value assigns. -/
def Binding.targets (b : Binding) : List String :=
  b.name :: b.value.targets

/-- The variables that the start of a `for` defines or assigns. -/
def Init.targets : Option Init → List String
  | some (.define b) => b.targets
  | some (.expr e) => e.targets
  | none => []

mutual

/-- The variables that a statement defines or assigns anywhere inside. -/
def Stmt.targets : Stmt → List String
  | .define b => b.targets
  | .print e => e.targets
  | .block b => b.targets
  | .branch c b o => c.targets ++ b.targets ++ o.targets
  | .whileLoop c b => c.targets ++ b.targets
  | .forLoop i c n b => Init.targets i ++ targetsOf c ++ targetsOf n ++ b.targets
  | .expr e => e.targets

/-- The variables that some statements define or assign. -/
def Stmt.targetsAll : List Stmt → List String
  | [] => []
  | s :: ss => s.targets ++ Stmt.targetsAll ss

/-- The variables that a block defines or assigns. -/
def Block.targets : Block → List String
  | .mk ss _ => Stmt.targetsAll ss

/-- The variables that the other part of an `if` defines or assigns. -/
def Otherwise.targets : Otherwise → List String
  | .nothing => []
  | .block b => b.targets
  | .branch c b o => c.targets ++ b.targets ++ o.targets

end

/-- Whether a statement is itself a definition. -/
def Stmt.isDefinition : Stmt → Bool
  | .define _ => true
  | _ => false

/-! ## Environments before and after -/

/-- The innermost list gets more names at its end. -/
def Frames.extend (σ : Frames) (added : List String) : Frames :=
  match σ with
  | [] => []
  | names :: outer => (names ++ added) :: outer

namespace Frames

@[simp] theorem extend_nil (σ : Frames) : σ.extend [] = σ := by
  cases σ <;> simp [extend]

theorem extend_extend (σ : Frames) (xs ys : List String) :
    (σ.extend xs).extend ys = σ.extend (xs ++ ys) := by
  cases σ <;> simp [extend]

@[simp] theorem tail_extend (σ : Frames) (xs : List String) : (σ.extend xs).tail = σ.tail := by
  cases σ <;> rfl

@[simp] theorem length_extend (σ : Frames) (xs : List String) :
    (σ.extend xs).length = σ.length := by
  cases σ <;> rfl

theorem exists_declare_eq_extend (σ : Frames) (x : String) :
    ∃ added, σ.declare x = σ.extend added := by
  cases σ with
  | nil => exact ⟨[], rfl⟩
  | cons names outer =>
    by_cases h : x ∈ names
    · exact ⟨[], by simp [declare, extend, h]⟩
    · exact ⟨[x], by simp [declare, extend, h]⟩

end Frames

namespace Environment

/-- The innermost scope. -/
def innermost (env : Environment) : Scope :=
  env.inner.headD env.globals

/-- The value of a name in scope number `k`, if that scope binds it. -/
def valueIn (env : Environment) (k : Nat) (x : String) : Option Value :=
  env.scopes[k]?.bind fun s => s.get? x

theorem length_names (env : Environment) : env.names.length = env.depth := by
  simp [names, scopes, depth]

theorem names_eq_cons (env : Environment) :
    env.names = env.innermost.names :: env.names.tail := by
  obtain ⟨inner, globals⟩ := env
  cases inner <;> rfl

theorem valueIn_push_succ (env : Environment) (k : Nat) (x : String) :
    env.push.valueIn (k + 1) x = env.valueIn k x := rfl

theorem valueIn_pop {env : Environment} (h : env.inner ≠ []) (k : Nat) (x : String) :
    env.pop.valueIn k x = env.valueIn (k + 1) x := by
  obtain ⟨inner, globals⟩ := env
  cases inner with
  | nil => exact absurd rfl h
  | cons scope outer => rfl

theorem valueIn_define {x y : String} (h : y ≠ x) (env : Environment) (v : Value) (k : Nat) :
    (env.define x v).valueIn k y = env.valueIn k y := by
  obtain ⟨inner, globals⟩ := env
  cases inner with
  | nil => cases k <;> simp [define, valueIn, scopes, Scope.get?_insert, h]
  | cons scope outer => cases k <;> simp [define, valueIn, scopes, Scope.get?_insert, h]

theorem valueIn_of_assign? {env after : Environment} {x y : String} {v : Value}
    (ha : env.assign? x v = some after) (h : y ≠ x) (k : Nat) :
    after.valueIn k y = env.valueIn k y := by
  have hs := env.assign?_scopes x v
  rw [ha, Option.map_some, assignIn_eq] at hs
  obtain ⟨j, -, hj⟩ := Option.map_eq_some_iff.mp hs.symm
  rw [valueIn, ← hj, List.getElem?_modify, valueIn]
  by_cases hjk : j = k
  · cases env.scopes[k]? <;> simp [hjk, Scope.get?_replace, h]
  · simp [hjk]

/-- What a statement with the targets `xs` may do: the innermost scope has the names `added` at its
    end, no other names have changed, and no scope has a new value for a variable outside `xs`. -/
structure Keeps (xs added : List String) (before after : Environment) : Prop where
  names : after.names = before.names.extend added
  values : ∀ x ∉ xs, ∀ k, after.valueIn k x = before.valueIn k x

namespace Keeps

variable {xs ys : List String} {env after : Environment}

theorem refl (xs : List String) (env : Environment) : Keeps xs [] env env :=
  ⟨by simp, fun _ _ _ => rfl⟩

theorem trans {added added' : List String} {mid : Environment} (h : Keeps xs added env mid)
    (h' : Keeps xs added' mid after) : Keeps xs (added ++ added') env after where
  names := by rw [h'.names, h.names, Frames.extend_extend]
  values := fun x hx k => (h'.values x hx k).trans (h.values x hx k)

theorem mono {added : List String} (h : Keeps xs added env after) (hsub : ∀ x ∈ xs, x ∈ ys) :
    Keeps ys added env after :=
  ⟨h.names, fun x hx => h.values x fun hxs => hx (hsub x hxs)⟩

theorem define {x : String} (hx : x ∈ xs) (env : Environment) (v : Value) :
    ∃ added, Keeps xs added env (env.define x v) := by
  obtain ⟨added, ha⟩ := env.names.exists_declare_eq_extend x
  refine ⟨added, by rw [names_define, ha], fun y hy => valueIn_define ?_ env v⟩
  rintro rfl
  exact hy hx

theorem assign {x : String} {v : Value} (hx : x ∈ xs) (ha : env.assign? x v = some after) :
    Keeps xs [] env after := by
  refine ⟨by rw [names_of_assign? ha, Frames.extend_nil], fun y hy => valueIn_of_assign? ha ?_⟩
  rintro rfl
  exact hy hx

/-- The names that were added inside a scope go with it. -/
theorem scope {added : List String} (h : Keeps xs added env.push after) :
    Keeps xs [] env after.pop := by
  have htail : after.names.pop = env.names := by
    rw [Frames.pop, h.names, Frames.tail_extend]
    rfl
  have hinner : after.inner ≠ [] := by
    intro hnil
    refine env.names_ne_nil ?_
    rw [← htail, Environment.names, scopes, hnil]
    rfl
  constructor
  · rw [names_pop (by rw [htail]; exact env.names_ne_nil), htail, Frames.extend_nil]
  · intro x hx k
    rw [valueIn_pop hinner, h.values x hx, valueIn_push_succ]

end Keeps

end Environment

/-! ## Expressions -/

/-- An expression keeps all names, and changes no variable but its targets. -/
theorem Expr.eval_keeps (e : Expr) (env : Environment) : env.Keeps e.targets [] (e.eval env).2 := by
  induction e generalizing env with
  | number x s => exact .refl _ env
  | text t s => exact .refl _ env
  | bool b s => exact .refl _ env
  | name x s =>
    rw [eval]
    split <;> exact .refl _ env
  | assign x value s ih =>
    have hv : env.Keeps (targets (.assign x value s)) [] (value.eval env).2 :=
      (ih env).mono fun y hy => List.mem_cons_of_mem x hy
    rw [eval]
    generalize value.eval env = r at hv
    obtain ⟨err | v, mid⟩ := r
    · exact hv
    · dsimp only
      split
      · next after ha => exact hv.trans (.assign List.mem_cons_self ha)
      · exact hv
  | binary op left right s ihl ihr =>
    have hl : env.Keeps (targets (.binary op left right s)) [] (left.eval env).2 :=
      (ihl env).mono fun y hy => List.mem_append_left _ hy
    rw [eval]
    generalize left.eval env = r at hl
    obtain ⟨err | a, mid⟩ := r
    · exact hl
    · have hr : mid.Keeps (targets (.binary op left right s)) [] (right.eval mid).2 :=
        (ihr mid).mono fun y hy => List.mem_append_right _ hy
      dsimp only
      split
      · exact hl
      · split
        · exact hl
        · generalize right.eval mid = r at hr
          obtain ⟨err | b, last⟩ := r <;> exact hl.trans hr
  | unary op operand s ih =>
    have ho := ih env
    rw [eval]
    generalize operand.eval env = r at ho
    obtain ⟨err | v, mid⟩ := r <;> exact ho

/-! ## Runs -/

/-- However the run ends, it has done no more than a statement with the targets `xs` may do; only
    where `adds` holds can there be new names. -/
def Run.Keeps (adds : Bool) (xs : List String) (env : Environment) (r : Run) : Prop :=
  ∃ added, (adds = false → added = []) ∧ env.Keeps xs added r.state.env

namespace Run.Keeps

variable {adds : Bool} {xs ys : List String} {env : Environment} {r : Run}

theorem of_steady (h : env.Keeps xs [] r.state.env) : r.Keeps adds xs env :=
  ⟨[], fun _ => rfl, h⟩

theorem steady (h : r.Keeps false xs env) : env.Keeps xs [] r.state.env := by
  obtain ⟨added, hadds, hk⟩ := h
  rwa [hadds rfl] at hk

theorem mono (h : r.Keeps adds xs env) (hsub : ∀ x ∈ xs, x ∈ ys) : r.Keeps adds ys env := by
  obtain ⟨added, hadds, hk⟩ := h
  exact ⟨added, hadds, hk.mono hsub⟩

theorem grown (h : r.Keeps adds xs env) : r.Keeps true xs env := by
  obtain ⟨added, -, hk⟩ := h
  exact ⟨added, nofun, hk⟩

theorem andThen {next : Value → Machine → Run} (h : r.Keeps adds xs env)
    (hnext : ∀ v m, (next v m).Keeps adds xs m.env) : (r.andThen next).Keeps adds xs env := by
  cases r with
  | failed e m => exact h
  | cut m => exact h
  | done v m =>
    obtain ⟨added, hadds, hk⟩ := h
    obtain ⟨added', hadds', hk'⟩ := hnext v m
    refine ⟨added ++ added', fun hf => ?_, hk.trans hk'⟩
    rw [hadds hf, hadds' hf]
    rfl

end Run.Keeps

namespace Machine

theorem eval_keeps (m : Machine) (e : Expr) : (m.eval e).Keeps false e.targets m.env := by
  have h := e.eval_keeps m.env
  refine .of_steady ?_
  unfold eval
  generalize e.eval m.env = r at h
  obtain ⟨err | v, env⟩ := r <;> exact h

theorem eval_printed (m : Machine) (e : Expr) : (m.eval e).state.printed = m.printed := by
  unfold eval
  rcases e.eval m.env with ⟨err | v, env⟩ <;> rfl

theorem eval?_keeps (m : Machine) (e : Option Expr) :
    (m.eval? e).Keeps false (targetsOf e) m.env := by
  cases e with
  | none => exact .of_steady (.refl _ m.env)
  | some e => exact m.eval_keeps e

theorem define_keeps (m : Machine) (b : Binding) : (m.define b).Keeps true b.targets m.env := by
  have hvalue : (m.eval b.value).Keeps true b.targets m.env :=
    (m.eval_keeps b.value).grown.mono fun x hx => List.mem_cons_of_mem b.name hx
  refine hvalue.andThen fun v m => ?_
  have hname : b.name ∈ b.targets := List.mem_cons_self
  obtain ⟨added, hk⟩ := Environment.Keeps.define hname m.env v
  exact ⟨added, nofun, hk⟩

theorem init_keeps (m : Machine) (i : Option Init) :
    (m.init i).Keeps true (Init.targets i) m.env := by
  match i with
  | some (.define b) => exact m.define_keeps b
  | some (.expr e) => exact (m.eval_keeps e).grown
  | none => exact .of_steady (.refl _ m.env)

theorem inScope_keeps {m : Machine} {body : Machine → Run} {xs : List String}
    (h : ∀ m, (body m).Keeps true xs m.env) : (m.inScope body).Keeps false xs m.env := by
  obtain ⟨added, -, hk⟩ := h { m with env := m.env.push }
  refine .of_steady ?_
  unfold inScope
  cases hb : body { m with env := m.env.push } <;> rw [hb] at hk <;> exact hk.scope

-- By recursion on the steps. Only lists of statements and the start of a `for` can add names, and
-- both run inside a scope of their own unless they stand at the top.
mutual

theorem exec_keeps (steps : Nat) (s : Stmt) (m : Machine) :
    (exec steps s m).Keeps s.isDefinition s.targets m.env := by
  match steps, s with
  | 0, _ => exact .of_steady (.refl _ m.env)
  | steps + 1, .define b => exact m.define_keeps b
  | steps + 1, .print e =>
    exact (m.eval_keeps e).andThen fun v m => .of_steady (.refl _ m.env)
  | steps + 1, .block b => exact execBlock_keeps steps b m
  | steps + 1, .branch c b o => exact execBranch_keeps steps c b o m
  | steps + 1, .whileLoop c b => exact execWhile_keeps steps c b .null m
  | steps + 1, .forLoop i c n b =>
    simp only [exec, Stmt.isDefinition]
    refine inScope_keeps fun m => ?_
    refine ((m.init_keeps i).mono fun x hx => ?_).andThen fun _ m => ?_
    · simp [Stmt.targets, hx]
    · refine (execFor_keeps steps c n b .null m).grown.mono fun x hx => ?_
      simp only [Stmt.targets, List.append_assoc, List.mem_append] at hx ⊢
      exact .inr hx
  | steps + 1, .expr e => exact m.eval_keeps e

theorem execAll_keeps (steps : Nat) (ss : List Stmt) (last : Value) (m : Machine) :
    (execAll steps ss last m).Keeps true (Stmt.targetsAll ss) m.env := by
  match steps, ss with
  | 0, _ => exact .of_steady (.refl _ m.env)
  | steps + 1, [] => exact .of_steady (.refl _ m.env)
  | steps + 1, s :: ss =>
    refine ((exec_keeps steps s m).grown.mono fun x hx => ?_).andThen fun v m => ?_
    · exact List.mem_append_left _ hx
    · exact (execAll_keeps steps ss v m).mono fun x hx => List.mem_append_right _ hx

theorem execBlock_keeps (steps : Nat) (b : Block) (m : Machine) :
    (execBlock steps b m).Keeps false b.targets m.env := by
  match steps, b with
  | 0, _ => exact .of_steady (.refl _ m.env)
  | steps + 1, .mk ss span => exact inScope_keeps fun m => execAll_keeps steps ss .null m

theorem execBranch_keeps (steps : Nat) (c : Expr) (b : Block) (o : Otherwise) (m : Machine) :
    (execBranch steps c b o m).Keeps false (c.targets ++ b.targets ++ o.targets) m.env := by
  match steps with
  | 0 => exact .of_steady (.refl _ m.env)
  | steps + 1 =>
    refine ((m.eval_keeps c).mono fun x hx => ?_).andThen fun v m => ?_
    · simp [hx]
    · split
      · refine (execBlock_keeps steps b m).mono fun x hx => ?_
        simp [hx]
      · match o with
        | .nothing => exact .of_steady (.refl _ m.env)
        | .block b =>
          refine (execBlock_keeps steps b m).mono fun x hx => ?_
          simp [Otherwise.targets, hx]
        | .branch c b o =>
          exact (execBranch_keeps steps c b o m).mono fun x hx => List.mem_append_right _ hx

theorem execWhile_keeps (steps : Nat) (c : Expr) (b : Block) (last : Value) (m : Machine) :
    (execWhile steps c b last m).Keeps false (c.targets ++ b.targets) m.env := by
  match steps with
  | 0 => exact .of_steady (.refl _ m.env)
  | steps + 1 =>
    refine ((m.eval_keeps c).mono fun x hx => List.mem_append_left _ hx).andThen fun v m => ?_
    split
    · refine ((execBlock_keeps steps b m).mono fun x hx => ?_).andThen fun v m => ?_
      · exact List.mem_append_right _ hx
      · exact execWhile_keeps steps c b v m
    · exact .of_steady (.refl _ m.env)

theorem execFor_keeps (steps : Nat) (c n : Option Expr) (b : Block) (last : Value) (m : Machine) :
    (execFor steps c n b last m).Keeps false (targetsOf c ++ targetsOf n ++ b.targets) m.env := by
  match steps with
  | 0 => exact .of_steady (.refl _ m.env)
  | steps + 1 =>
    refine ((m.eval?_keeps c).mono fun x hx => ?_).andThen fun v m => ?_
    · simp [hx]
    · split
      · refine ((execBlock_keeps steps b m).mono fun x hx => ?_).andThen fun v m => ?_
        · simp [hx]
        · refine ((m.eval?_keeps n).mono fun x hx => ?_).andThen fun _ m => ?_
          · simp [hx]
          · exact execFor_keeps steps c n b v m
      · exact .of_steady (.refl _ m.env)

end

/-! ## Sessions -/

/-- What can be asked of one machine, again and again. -/
inductive Call where
  | run (program : Program)
  | evaluate (expression : Expr)

/-- Answer a call, within a number of steps if it is a program. -/
def answer (m : Machine) (steps : Nat) : Call → Run
  | .run p => m.run steps p
  | .evaluate e => m.eval e

/-- The calls lead from one state to another. Each of them came to its end, with a value or an
    error. -/
inductive Session : Machine → List Call → Machine → Prop where
  | nil (m : Machine) : Session m [] m
  | cons {m last : Machine} {call : Call} {calls : List Call} (steps : Nat) :
      (m.answer steps call).ended = true → Session (m.answer steps call).state calls last →
      Session m (call :: calls) last

theorem answer_names (m : Machine) (steps : Nat) (call : Call) :
    ∃ added, (m.answer steps call).state.env.names = m.env.names.extend added := by
  cases call with
  | run p =>
    obtain ⟨added, -, hk⟩ := execAll_keeps steps p.statements .null m
    exact ⟨added, hk.names⟩
  | evaluate e => exact ⟨[], (m.eval_keeps e).steady.names⟩

/-- A session only adds names to the scope in which it starts. -/
theorem Session.names {m last : Machine} {calls : List Call} (h : Session m calls last) :
    ∃ added, last.env.names = m.env.names.extend added := by
  induction h with
  | nil m => exact ⟨[], by simp⟩
  | @cons m last call calls steps _ _ ih =>
    obtain ⟨added, ha⟩ := m.answer_names steps call
    obtain ⟨added', ha'⟩ := ih
    exact ⟨added ++ added', by rw [ha', ha, Frames.extend_extend]⟩

/-- From the start on there is only the global scope. -/
theorem Session.depth_eq_one {m : Machine} {calls : List Call} (h : Session start calls m) :
    m.env.depth = 1 := by
  obtain ⟨added, ha⟩ := h.names
  rw [← Environment.length_names, ha, Frames.length_extend]
  rfl

end Machine

/-! ## The discipline -/

namespace Environment

theorem globals_eq_innermost {env : Environment} (h : env.depth = 1) :
    env.globals = env.innermost := by
  have hnil : env.inner = [] := List.eq_nil_of_length_eq_zero (Nat.succ.inj h)
  rw [innermost, hnil]
  rfl

theorem innermost_names_prefix {before after : Environment} {added : List String}
    (h : after.names = before.names.extend added) :
    before.innermost.names <+: after.innermost.names := by
  rw [before.names_eq_cons, after.names_eq_cons, Frames.extend] at h
  exact ⟨added, (List.cons.inj h).1.symm⟩

end Environment

/-- Scopes are closed as they were opened, on success and on failure. A statement leaves the number
    of scopes, the names of all but the innermost one, and the names of that one too, except that a
    definition may put more at their end; in every scope, a variable that the statement neither
    defines nor assigns anywhere keeps its value. An expression defines no name and prints nothing.
    So between the calls of a session, whether they failed or not, only the global scope is open,
    and its names are never taken back. -/
theorem Machine.scope_discipline :
    (∀ (steps : Nat) (s : Stmt) (m : Machine),
      (exec steps s m).state.env.depth = m.env.depth ∧
      (∀ k, 0 < k → (exec steps s m).state.env.names[k]? = m.env.names[k]?) ∧
      m.env.innermost.names <+: (exec steps s m).state.env.innermost.names ∧
      ((∀ b, s ≠ .define b) → (exec steps s m).state.env.names = m.env.names) ∧
      ∀ x ∉ s.targets, ∀ k, (exec steps s m).state.env.valueIn k x = m.env.valueIn k x) ∧
    (∀ (e : Expr) (m : Machine),
      (m.eval e).state.env.names = m.env.names ∧ (m.eval e).state.printed = m.printed ∧
      ∀ x ∉ e.targets, ∀ k, (m.eval e).state.env.valueIn k x = m.env.valueIn k x) ∧
    (∀ (calls calls' : List Call) (m m' : Machine),
      Session .start calls m → Session m calls' m' →
      m.env.depth = 1 ∧ m'.env.depth = 1 ∧ m.env.globals.names <+: m'.env.globals.names) := by
  refine ⟨fun steps s m => ?_, fun e m => ?_, fun calls calls' m m' h h' => ?_⟩
  · obtain ⟨added, hadds, hk⟩ := exec_keeps steps s m
    refine ⟨?_, fun k hk0 => ?_, Environment.innermost_names_prefix hk.names, fun hs => ?_,
      hk.values⟩
    · rw [← Environment.length_names, hk.names, Frames.length_extend, Environment.length_names]
    · obtain ⟨j, rfl⟩ := Nat.exists_eq_succ_of_ne_zero (Nat.ne_of_gt hk0)
      rw [hk.names, ← List.getElem?_tail, Frames.tail_extend, List.getElem?_tail]
    · have hdef : s.isDefinition = false := by
        cases s with
        | define b => exact absurd rfl (hs b)
        | _ => rfl
      rw [hk.names, hadds hdef, Frames.extend_nil]
  · have hk := (m.eval_keeps e).steady
    exact ⟨by rw [hk.names, Frames.extend_nil], m.eval_printed e, hk.values⟩
  · have hdepth := h.depth_eq_one
    obtain ⟨added, ha⟩ := h'.names
    have hdepth' : m'.env.depth = 1 := by
      rw [← Environment.length_names, ha, Frames.length_extend, Environment.length_names, hdepth]
    refine ⟨hdepth, hdepth', ?_⟩
    rw [Environment.globals_eq_innermost hdepth, Environment.globals_eq_innermost hdepth']
    exact Environment.innermost_names_prefix ha

-- The program fails inside a block, and after it the variable of that block is undefined.
theorem Machine.scope_discipline_failed_block :
    ∃ m : Machine, Session .start
        [.run ⟨[.block (.mk
          [.define ⟨"a", .bool true ⟨10, 14⟩, ⟨2, 14⟩⟩, .expr (.name "b" ⟨16, 17⟩)] ⟨0, 20⟩)]⟩,
        .evaluate (.name "a" ⟨0, 1⟩)] m ∧
      m.env.depth = 1 := by
  refine ⟨_, .cons 8 rfl (.cons 0 rfl (.nil _)), ?_⟩
  exact (scope_discipline.2.2 _ _ _ _ (.cons 8 rfl (.cons 0 rfl (.nil _))) (.nil _)).1

end Respell
