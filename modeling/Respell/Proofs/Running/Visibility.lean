-- SUMMARY: A statement depends only on the visible values of the names in it.
import Respell.Proofs.Running.Simulation
import Respell.Proofs.Running.Steps
import Respell.Proofs.Scoping.Nesting

/-!
# What a program can see

A statement can see the value that a look-up finds for each name in it, and nothing else: not which
scope holds the variable, nor what it shadows, nor how many scopes there are. While it runs it opens
scopes, in which only its own definitions stand. So two runs from environments that agree on the
names have these scopes in common, and below them the environments go on to agree: an assignment
that finds the name in none of the common scopes changes what a look-up finds below, in both.
-/

namespace Respell

/-! ## Environments that agree -/

namespace Environment

/-- Look-ups find the same for some names. -/
def AgreeOn (xs : List String) (a b : Environment) : Prop :=
  ∀ x ∈ xs, b.lookup x = a.lookup x

namespace AgreeOn

variable {xs : List String} {a b a' b' : Environment} {x : String}

theorem define (h : AgreeOn xs a b) (x : String) (v : Value) :
    AgreeOn xs (a.define x v) (b.define x v) := by
  intro y hy
  rw [lookup_define, lookup_define, h y hy]

theorem assign {v : Value} (h : AgreeOn xs a b) (ha : a.assign? x v = some a')
    (hb : b.assign? x v = some b') : AgreeOn xs a' b' := by
  intro y hy
  rw [lookup_of_assign? ha, lookup_of_assign? hb, h y hy]

theorem nest (h : AgreeOn xs a b) (top : List Scope) : AgreeOn xs (a.nest top) (b.nest top) := by
  intro y hy
  rw [lookup_nest, lookup_nest, h y hy]

end AgreeOn

/-- The two environments have their `n` innermost scopes in common, and agree below them. -/
def AgreeBelow (xs : List String) (n : Nat) (a b : Environment) : Prop :=
  ∃ top below below', top.length = n ∧ a = nest below top ∧ b = nest below' top ∧
    below.AgreeOn xs below'

namespace AgreeBelow

variable {xs : List String} {n : Nat} {a b : Environment}

theorem of_agreeOn (h : a.AgreeOn xs b) : AgreeBelow xs 0 a b :=
  ⟨[], a, b, rfl, rfl, rfl, h⟩

theorem agreeOn (h : AgreeBelow xs n a b) : a.AgreeOn xs b := by
  obtain ⟨top, below, below', -, rfl, rfl, hbelow⟩ := h
  exact hbelow.nest top

theorem assign {x : String} {v : Value} {a' b' : Environment} (h : AgreeBelow xs n a b)
    (ha : a.assign? x v = some a') (hb : b.assign? x v = some b') : AgreeBelow xs n a' b' := by
  obtain ⟨top, below, below', hlen, rfl, rfl, hbelow⟩ := h
  rw [assign?_nest] at ha hb
  cases ht : assignIn x v top with
  | some top' =>
    simp only [ht, Option.some.injEq] at ha hb
    exact ⟨top', below, below', by rw [length_of_assignIn ht, hlen], ha.symm, hb.symm, hbelow⟩
  | none =>
    simp only [ht] at ha hb
    obtain ⟨mid, hmid, rfl⟩ := Option.map_eq_some_iff.mp ha
    obtain ⟨mid', hmid', rfl⟩ := Option.map_eq_some_iff.mp hb
    exact ⟨top, mid, mid', hlen, rfl, rfl, hbelow.assign hmid hmid'⟩

theorem define (h : AgreeBelow xs n a b) (x : String) (v : Value) :
    AgreeBelow xs n (a.define x v) (b.define x v) := by
  obtain ⟨top, below, below', hlen, rfl, rfl, hbelow⟩ := h
  cases top with
  | nil => exact ⟨[], below.define x v, below'.define x v, hlen, rfl, rfl, hbelow.define x v⟩
  | cons scope top =>
    exact ⟨scope.insert x v :: top, below, below', hlen, define_nest below scope top x v,
      define_nest below' scope top x v, hbelow⟩

theorem push (h : AgreeBelow xs n a b) : AgreeBelow xs (n + 1) a.push b.push := by
  obtain ⟨top, below, below', hlen, rfl, rfl, hbelow⟩ := h
  exact ⟨.empty :: top, below, below', congrArg Nat.succ hlen, push_nest below top,
    push_nest below' top, hbelow⟩

theorem pop (h : AgreeBelow xs (n + 1) a b) : AgreeBelow xs n a.pop b.pop := by
  obtain ⟨top, below, below', hlen, rfl, rfl, hbelow⟩ := h
  cases top with
  | nil => cases hlen
  | cons scope top =>
    exact ⟨top, below, below', Nat.succ.inj hlen, pop_nest below scope top,
      pop_nest below' scope top, hbelow⟩

end AgreeBelow

/-- All that a run does to its environment keeps two environments in agreement. -/
theorem simulation_agreeBelow (xs : List String) :
    Simulation (fun x => x ∈ xs) Labels.same.name 0 (AgreeBelow xs) where
  base_le := Nat.zero_le 1
  lookup h hx := h.agreeOn _ hx
  assign h _ ha hb := h.assign ha hb
  define v _ h _ := h.define _ v
  push h := h.push
  pop h := h.pop

end Environment

open Environment (AgreeOn AgreeBelow simulation_agreeBelow)

/-! ## Runs that agree -/

namespace Run

/-- The value or the error that a run ended with. -/
def outcome? : Run → Option (Except RuntimeError Value)
  | .done v _ => some (.ok v)
  | .failed e _ => some (.error e)
  | .cut _ => none

/-- Two runs cannot be told apart by someone who knows only some names. -/
structure AgreeOn (xs : List String) (r r' : Run) : Prop where
  outcome : r'.outcome? = r.outcome?
  printed : r'.state.printed = r.state.printed
  env : r.state.env.AgreeOn xs r'.state.env

theorem Follows.agreeOn {xs : List String} {n : Nat} {r r' : Run}
    (h : r.Follows .same (AgreeBelow xs n) r') : r.AgreeOn xs r' := by
  cases h with
  | done v hm => exact ⟨rfl, hm.printed, hm.env.agreeOn⟩
  | failed e hm => exact ⟨by rw [e.relabel_same]; rfl, hm.printed, hm.env.agreeOn⟩
  | cut hm => exact ⟨rfl, hm.printed, hm.env.agreeOn⟩

theorem ended_eq (r : Run) : r.ended = r.outcome?.isSome := by
  cases r <;> rfl

theorem AgreeOn.ended {xs : List String} {r r' : Run} (h : r.AgreeOn xs r') :
    r'.ended = r.ended := by
  rw [ended_eq, h.outcome, ended_eq]

/-- If two runs agree whatever the bound on their steps is, then both of them end or none does, and
    their ends agree, though they may take different bounds to come there. -/
theorem AgreeOn.ends {xs : List String} {runs runs' : Nat → Run}
    (hmore : ∀ n, (runs n).Extends (runs (n + 1)))
    (hmore' : ∀ n, (runs' n).Extends (runs' (n + 1)))
    (h : ∀ n, (runs n).AgreeOn xs (runs' n)) :
    ((∃ r : Run, r.ended = true ∧ ∃ n, runs n = r) ↔
      ∃ r : Run, r.ended = true ∧ ∃ n, runs' n = r) ∧
    ∀ r r' : Run, (r.ended = true ∧ ∃ n, runs n = r) → (r'.ended = true ∧ ∃ n, runs' n = r') →
      r.AgreeOn xs r' := by
  refine ⟨⟨?_, ?_⟩, ?_⟩
  · rintro ⟨r, hr, n, rfl⟩
    exact ⟨runs' n, (h n).ended.trans hr, n, rfl⟩
  · rintro ⟨r, hr, n, rfl⟩
    exact ⟨runs n, (h n).ended.symm.trans hr, n, rfl⟩
  · rintro r r' ⟨hr, n, rfl⟩ ⟨hr', k, rfl⟩
    rw [← Extends.of_le hmore (Nat.le_max_left n k) hr,
      ← Extends.of_le hmore' (Nat.le_max_right n k) hr']
    exact h (max n k)

end Run

namespace Machine

/-- Running a program from `m` comes to the end `r`, with a value or an error. -/
def Finishes (m : Machine) (p : Program) (r : Run) : Prop :=
  r.ended = true ∧ ∃ steps, m.run steps p = r

theorem exec_agreeOn (s : Stmt) {env env' : Environment} (h : env.AgreeOn s.names env')
    (printed : Array Value) (steps : Nat) :
    (exec steps s ⟨env, printed⟩).AgreeOn s.names (exec steps s ⟨env', printed⟩) := by
  have halike : Alike (AgreeBelow s.names 0) ⟨env, printed⟩ ⟨env', printed⟩ :=
    ⟨.of_agreeOn h, rfl⟩
  have hfollows := (simulation_agreeBelow s.names).exec steps s (Nat.zero_le 0) halike
    fun _ hx => hx
  rw [s.relabel_same] at hfollows
  exact hfollows.agreeOn

theorem run_agreeOn (p : Program) {env env' : Environment}
    (h : env.AgreeOn (Stmt.namesAll p.statements) env') (printed : Array Value) (steps : Nat) :
    (run ⟨env, printed⟩ steps p).AgreeOn (Stmt.namesAll p.statements)
      (run ⟨env', printed⟩ steps p) := by
  have halike : Alike (AgreeBelow (Stmt.namesAll p.statements) 0) ⟨env, printed⟩
      ⟨env', printed⟩ := ⟨.of_agreeOn h, rfl⟩
  have hfollows := (simulation_agreeBelow (Stmt.namesAll p.statements)).execAll steps p.statements
    .null (Nat.zero_le 0) halike fun _ hx => hx
  rw [Stmt.relabelAll_same] at hfollows
  exact hfollows.agreeOn

/-- Execution depends only on the visible values of the names in a statement or a program. From two
    environments in which look-ups find the same for these names, however their scopes are made, it
    ends from both or from neither. If it ends, then with the same value or error, the same prints,
    and environments in which look-ups again find the same. And cut short after the same number of
    steps, the two executions cannot be told apart either. -/
theorem depends_on_visible_values {env env' : Environment} (printed : Array Value) :
    (∀ s : Stmt, env.AgreeOn s.names env' →
      ((∃ r, Ends ⟨env, printed⟩ s r) ↔ ∃ r, Ends ⟨env', printed⟩ s r) ∧
      (∀ r r', Ends ⟨env, printed⟩ s r → Ends ⟨env', printed⟩ s r' → r.AgreeOn s.names r') ∧
      ∀ steps, (exec steps s ⟨env, printed⟩).AgreeOn s.names (exec steps s ⟨env', printed⟩)) ∧
    ∀ p : Program, env.AgreeOn (Stmt.namesAll p.statements) env' →
      ((∃ r, Finishes ⟨env, printed⟩ p r) ↔ ∃ r, Finishes ⟨env', printed⟩ p r) ∧
      (∀ r r', Finishes ⟨env, printed⟩ p r → Finishes ⟨env', printed⟩ p r' →
        r.AgreeOn (Stmt.namesAll p.statements) r') ∧
      ∀ steps, (run ⟨env, printed⟩ steps p).AgreeOn (Stmt.namesAll p.statements)
        (run ⟨env', printed⟩ steps p) := by
  refine ⟨fun s h => ?_, fun p h => ?_⟩
  · have hagree := exec_agreeOn s h printed
    obtain ⟨hends, hsame⟩ := Run.AgreeOn.ends (fun n => exec_extends n s _)
      (fun n => exec_extends n s _) hagree
    exact ⟨hends, hsame, hagree⟩
  · have hagree := run_agreeOn p h printed
    obtain ⟨hends, hsame⟩ := Run.AgreeOn.ends (fun n => execAll_extends n p.statements .null _)
      (fun n => execAll_extends n p.statements .null _) hagree
    exact ⟨hends, hsame, hagree⟩

-- The second environment has `b` in an inner scope and under another value outside, an empty scope
-- and a variable more. The statement shadows `a`, which is undefined in both, and assigns to `b`.
theorem depends_on_visible_values_shadowed :
    ∃ (env env' : Environment) (s : Stmt) (p : Program) (r r' q q' : Run),
      env.depth = 1 ∧ env'.depth = 3 ∧ env.AgreeOn s.names env' ∧
      Ends ⟨env, #[]⟩ s r ∧ Ends ⟨env', #[]⟩ s r' ∧ r.AgreeOn s.names r' ∧
      Finishes ⟨env, #[]⟩ p q ∧ Finishes ⟨env', #[]⟩ p q' ∧
      q.AgreeOn (Stmt.namesAll p.statements) q' := by
  let env := Environment.empty.define "b" (.bool true)
  let env' := (((Environment.empty.define "b" .null).define "c" .null).push.define "b"
    (.bool true)).push
  let s : Stmt := .block (.mk
    [.define ⟨"a", .name "b" ⟨10, 11⟩, ⟨2, 11⟩⟩,
      .expr (.assign "b" (.unary .not (.name "a" ⟨18, 19⟩) ⟨17, 19⟩) ⟨13, 19⟩)] ⟨0, 22⟩)
  have hagree : env.AgreeOn ["a", "b", "b", "a"] env' := by
    intro x hx
    simp only [List.mem_cons, List.not_mem_nil, or_false] at hx
    obtain rfl | rfl | rfl | rfl := hx <;> rfl
  have hs : Ends ⟨env, #[]⟩ s _ := ⟨rfl, 8, rfl⟩
  have hs' : Ends ⟨env', #[]⟩ s _ := ⟨rfl, 8, rfl⟩
  have hp : Finishes ⟨env, #[]⟩ ⟨[s]⟩ _ := ⟨rfl, 8, rfl⟩
  have hp' : Finishes ⟨env', #[]⟩ ⟨[s]⟩ _ := ⟨rfl, 8, rfl⟩
  obtain ⟨-, hsame, -⟩ := (depends_on_visible_values #[]).1 s hagree
  obtain ⟨-, hsame', -⟩ := (depends_on_visible_values #[]).2 ⟨[s]⟩ hagree
  exact ⟨env, env', s, ⟨[s]⟩, _, _, _, _, rfl, rfl, hagree, hs, hs', hsame _ _ hs hs', hp, hp',
    hsame' _ _ hp hp'⟩

end Machine

end Respell
