-- SUMMARY: Scoping is lexical: a run sees exactly the names that the static walk predicts.
import Respell.Proofs.Scoping.Visits

/-!
# Lexical scoping

The scopes of a running program are opened and closed by blocks and loops, and loops do so again in
every round. The invariant is that before a statement the environment has the names of the static
stack before it, in the same scopes and the same order. It follows that every visit of a run is at
an occurrence that the static walk has met, with the names it has noted there.
-/

namespace Respell

/-! ## The names of an environment -/

namespace Environment

/-- The names of every scope, the innermost first. -/
def names (env : Environment) : Frames :=
  env.scopes.map Scope.names

theorem names_ne_nil (env : Environment) : env.names ≠ [] := by
  simp [names, scopes]

theorem names_pop {env : Environment} (h : env.names.pop ≠ []) : env.pop.names = env.names.pop := by
  obtain ⟨inner, globals⟩ := env
  cases inner with
  | nil => exact absurd rfl h
  | cons scope outer => rfl

/-- A definition goes to the first of the scopes. -/
theorem scopes_define (env : Environment) (x : String) (v : Value) :
    ∃ scope outer, env.scopes = scope :: outer ∧
      (env.define x v).scopes = scope.insert x v :: outer := by
  obtain ⟨inner, globals⟩ := env
  cases inner with
  | nil => exact ⟨globals, [], rfl, rfl⟩
  | cons scope outer => exact ⟨scope, outer ++ [globals], rfl, rfl⟩

theorem names_define (env : Environment) (x : String) (v : Value) :
    (env.define x v).names = env.names.declare x := by
  obtain ⟨scope, outer, hscopes, hdefine⟩ := env.scopes_define x v
  simp [names, hscopes, hdefine, Frames.declare, Scope.insert_names]

/-! ## The scope that a name picks -/

theorem findSome?_get?_eq (x : String) (scopes : List Scope) :
    scopes.findSome? (fun s => s.get? x) =
      (Frames.pick (scopes.map Scope.names) x).bind fun k => scopes[k]?.bind fun s => s.get? x := by
  induction scopes with
  | nil => rfl
  | cons scope outer ih =>
    rw [List.findSome?_cons, List.map_cons, Frames.pick, List.findIdx?_cons]
    by_cases h : x ∈ scope.names
    · obtain ⟨w, hw⟩ := Option.isSome_iff_exists.mp (Scope.get?_isSome_iff.mpr h)
      simp [h, hw]
    · rw [Scope.get?_eq_none_iff.mpr h]
      simp only [h, decide_false, Bool.false_eq_true, if_false, ih, Option.bind_map]
      rfl

theorem assignIn_eq (x : String) (v : Value) (scopes : List Scope) :
    assignIn x v scopes =
      (Frames.pick (scopes.map Scope.names) x).map fun k =>
        scopes.modify k fun s => s.replace x v := by
  induction scopes with
  | nil => rfl
  | cons scope outer ih =>
    rw [assignIn, List.map_cons, Frames.pick, List.findIdx?_cons]
    by_cases h : x ∈ scope.names
    · simp [h]
    · simp only [Scope.contains_iff, h, decide_false, Bool.false_eq_true, if_false, ih,
        Option.map_map]
      rfl

theorem assignIn_append (x : String) (v : Value) (top rest : List Scope) :
    assignIn x v (top ++ rest) =
      match assignIn x v top with
      | some top => some (top ++ rest)
      | none => (assignIn x v rest).map (top ++ ·) := by
  induction top with
  | nil => simp [assignIn]
  | cons scope top ih =>
    rw [List.cons_append, assignIn, assignIn, ih]
    split
    · rfl
    · cases assignIn x v top with
      | some top' => rfl
      | none => simp [Function.comp_def]

/-- The global scope is assigned like any other. -/
theorem assign?_scopes (env : Environment) (x : String) (v : Value) :
    (env.assign? x v).map scopes = assignIn x v env.scopes := by
  rw [scopes, assignIn_append, assign?]
  cases assignIn x v env.inner with
  | some inner => rfl
  | none => by_cases h : env.globals.contains x = true <;> simp [assignIn, scopes, h]

theorem names_of_assignIn {x : String} {v : Value} {scopes after : List Scope}
    (h : assignIn x v scopes = some after) : after.map Scope.names = scopes.map Scope.names := by
  induction scopes generalizing after with
  | nil => cases h
  | cons scope outer ih =>
    rw [assignIn] at h
    split at h
    · cases h
      simp
    · obtain ⟨rest, hr, rfl⟩ := Option.map_eq_some_iff.mp h
      rw [List.map_cons, List.map_cons, ih hr]

theorem names_of_assign? {env after : Environment} {x : String} {v : Value}
    (h : env.assign? x v = some after) : after.names = env.names := by
  refine names_of_assignIn (x := x) (v := v) ?_
  rw [← assign?_scopes, h]
  rfl

/-- A look-up of `x` reads scope number `k`, and an assignment to it changes that scope only. -/
structure Settles (env : Environment) (x : String) (k : Nat) : Prop where
  lookup : ∃ scope v, env.scopes[k]? = some scope ∧ scope.get? x = some v ∧ env.lookup x = some v
  assign : ∀ v, ∃ after, env.assign? x v = some after ∧
    after.scopes = env.scopes.modify k fun s => s.replace x v

/-- Neither a look-up of `x` nor an assignment to it finds a scope. -/
structure Lacks (env : Environment) (x : String) : Prop where
  lookup : env.lookup x = none
  assign : ∀ v, env.assign? x v = none

theorem settles_of_pick {env : Environment} {x : String} {k : Nat}
    (h : env.names.pick x = some k) : env.Settles x k := by
  obtain ⟨hk, hmem, -⟩ := List.findIdx?_eq_some_iff_getElem.mp h
  have hk' : k < env.scopes.length := by simpa [names] using hk
  have hx : x ∈ (env.scopes[k]).names := by simpa [names] using hmem
  constructor
  · obtain ⟨v, hv⟩ := Option.isSome_iff_exists.mp (Scope.get?_isSome_iff.mpr hx)
    refine ⟨env.scopes[k], v, List.getElem?_eq_getElem hk', hv, ?_⟩
    have hp : Frames.pick (env.scopes.map Scope.names) x = some k := h
    rw [Environment.lookup, findSome?_get?_eq, hp, Option.bind_some,
      List.getElem?_eq_getElem hk', Option.bind_some, hv]
  · intro v
    have hs := env.assign?_scopes x v
    have hp : Frames.pick (env.scopes.map Scope.names) x = some k := h
    rw [assignIn_eq, hp, Option.map_some] at hs
    exact Option.map_eq_some_iff.mp hs

theorem lacks_of_pick {env : Environment} {x : String} (h : env.names.pick x = none) :
    env.Lacks x := by
  have hl : env.lookup x = none := by
    have hp : Frames.pick (env.scopes.map Scope.names) x = none := h
    rw [Environment.lookup, findSome?_get?_eq, hp, Option.bind_none]
  exact ⟨hl, fun v => assign?_eq_none_iff.mpr hl⟩

end Environment

/-! ## Undefined variables -/

/-- The variable that an error says is undefined, and where. -/
def RuntimeError.undefined? : RuntimeError → Option (String × Span)
  | .undefinedVariable x span => some (x, span)
  | _ => none

/-- The variable that an evaluation finds undefined. -/
def Answer.undefined? : Answer → Option (String × Span)
  | (.ok _, _) => none
  | (.error e, _) => e.undefined?

/-- The variable that a run finds undefined. -/
def Run.undefined? : Run → Option (String × Span)
  | .failed e _ => e.undefined?
  | _ => none

theorem BinaryOp.apply_undefined? (op : BinaryOp) (a b : Value) (span divisor : Span)
    (env : Environment) : Answer.undefined? (op.apply a b span divisor, env) = none := by
  unfold BinaryOp.apply
  cases op with
  | div => cases a <;> cases b <;> dsimp only <;> first | rfl | (split <;> rfl)
  | _ => cases a <;> cases b <;> rfl

theorem UnaryOp.apply_undefined? (op : UnaryOp) (v : Value) (span : Span) (env : Environment) :
    Answer.undefined? (op.apply v span, env) = none := by
  cases op <;> cases v <;> rfl

namespace Visit

/-- The visit as the static walk notes it. -/
def use (v : Visit) : Use :=
  ⟨v.site, v.access, v.env.names⟩

/-- Whether some scope has the variable. -/
def bound (v : Visit) : Bool :=
  (v.env.names.pick v.access.name).isSome

end Visit

/-- Every visit finds its variable, except for a last one at which the given variable was found
    undefined. -/
def Settled (undefined : Option (String × Span)) (vs : List Visit) : Prop :=
  match undefined with
  | none => ∀ v ∈ vs, v.bound = true
  | some (x, span) => ∃ before v, vs = before ++ [v] ∧ (∀ w ∈ before, w.bound = true) ∧
      v.bound = false ∧ v.access.name = x ∧ v.access.span = span

theorem Settled.append {undefined : Option (String × Span)} {us vs : List Visit}
    (hu : Settled none us) (hv : Settled undefined vs) : Settled undefined (us ++ vs) := by
  match undefined with
  | none =>
    intro w hw
    rcases List.mem_append.mp hw with hw | hw
    · exact hu w hw
    · exact hv w hw
  | some (x, span) =>
    obtain ⟨before, v, rfl, hbefore, hlast⟩ := hv
    refine ⟨us ++ before, v, by simp, fun w hw => ?_, hlast⟩
    rcases List.mem_append.mp hw with hw | hw
    · exact hu w hw
    · exact hbefore w hw

/-! ## Expressions -/

/-- A recorded evaluation whose visits are among the occurrences `us`, and which leaves the names
    `σ`. -/
structure Recorded.Evaluates (us : List Use) (σ : Frames) (r : Recorded Answer) : Prop where
  met : ∀ v ∈ r.visits, v.use ∈ us
  frames : r.result.2.names = σ
  settled : Settled r.result.undefined? r.visits

namespace Recorded.Evaluates

theorem weaken {us vs : List Use} {σ : Frames} {r : Recorded Answer} (h : r.Evaluates us σ)
    (hsub : ∀ u ∈ us, u ∈ vs) : r.Evaluates vs σ :=
  ⟨fun v hv => hsub _ (h.met v hv), h.frames, h.settled⟩

theorem withValue {us : List Use} {σ : Frames} {r : Recorded Answer}
    {next : Value → Environment → Recorded Answer} (h : r.Evaluates us σ)
    (hnext : ∀ v env, env.names = σ → (next v env).Evaluates us σ) :
    (r.withValue next).Evaluates us σ := by
  obtain ⟨⟨e | v, env⟩, visits⟩ := r
  · exact h
  · have hn := hnext v env h.frames
    refine ⟨fun w hw => ?_, hn.frames, h.settled.append hn.settled⟩
    rcases List.mem_append.mp hw with hw | hw
    · exact h.met w hw
    · exact hn.met w hw

end Recorded.Evaluates

theorem Environment.read_evaluates (env : Environment) (site : Site) (x : String) (span : Span) :
    (env.read site x span).Evaluates [⟨site, ⟨false, x, span⟩, env.names⟩] env.names := by
  cases hp : env.names.pick x with
  | none =>
    have hl := (Environment.lacks_of_pick hp).lookup
    refine ⟨by simp [read, Visit.use], by simp [read, hl], ?_⟩
    simp only [read, hl]
    exact ⟨[], _, rfl, by simp, by simp [Visit.bound, hp], rfl, rfl⟩
  | some k =>
    obtain ⟨scope, v, -, -, hl⟩ := (Environment.settles_of_pick hp).lookup
    refine ⟨by simp [read, Visit.use], by simp [read, hl], ?_⟩
    simp only [read, hl]
    intro w hw
    obtain rfl := List.mem_singleton.mp hw
    simp [Visit.bound, hp]

theorem Environment.write_evaluates (env : Environment) (site : Site) (x : String) (span : Span)
    (v : Value) :
    (env.write site x span v).Evaluates [⟨site, ⟨true, x, span⟩, env.names⟩] env.names := by
  cases hp : env.names.pick x with
  | none =>
    have ha := (Environment.lacks_of_pick hp).assign v
    refine ⟨by simp [write, Visit.use], by simp [write, ha], ?_⟩
    simp only [write, ha]
    exact ⟨[], _, rfl, by simp, by simp [Visit.bound, hp], rfl, rfl⟩
  | some k =>
    obtain ⟨after, ha, -⟩ := (Environment.settles_of_pick hp).assign v
    refine ⟨by simp [write, Visit.use], by simp [write, ha, Environment.names_of_assign? ha], ?_⟩
    simp only [write, ha]
    intro w hw
    obtain rfl := List.mem_singleton.mp hw
    simp [Visit.bound, hp]

theorem Recorded.quiet_evaluates {us : List Use} {σ : Frames} {a : Answer} (hσ : a.2.names = σ)
    (ha : a.undefined? = none) : (Recorded.quiet a).Evaluates us σ :=
  ⟨by simp [quiet], hσ, by simp [quiet, ha, Settled]⟩

/-- Evaluating an expression visits only what the walk has met in it, and defines nothing. -/
theorem Expr.evaluate_evaluates (e : Expr) (site : Site) (env : Environment) :
    (e.evaluate site env).Evaluates (e.uses site env.names) env.names := by
  induction e generalizing site env with
  | number x s => exact Recorded.quiet_evaluates rfl rfl
  | text t s => exact Recorded.quiet_evaluates rfl rfl
  | bool b s => exact Recorded.quiet_evaluates rfl rfl
  | name x s => exact env.read_evaluates site x s
  | assign x value s ih =>
    refine Recorded.Evaluates.withValue ?_ fun v env' henv => ?_
    · exact (ih (1 :: site) env).weaken fun u hu => List.mem_cons_of_mem _ hu
    · rw [← henv]
      exact (env'.write_evaluates (0 :: site) x s v).weaken (by simp [uses])
  | binary op left right s ihl ihr =>
    refine Recorded.Evaluates.withValue ?_ fun a env' henv => ?_
    · exact (ihl (0 :: site) env).weaken fun u hu => List.mem_append_left _ hu
    · split
      · exact Recorded.quiet_evaluates henv rfl
      split
      · exact Recorded.quiet_evaluates henv rfl
      · refine Recorded.Evaluates.withValue ?_ fun b env'' henv' => ?_
        · rw [← henv]
          exact (ihr (1 :: site) env').weaken fun u hu => List.mem_append_right _ hu
        · exact Recorded.quiet_evaluates henv' (op.apply_undefined? a b s right.span env'')
  | unary op operand s ih =>
    refine Recorded.Evaluates.withValue (ih (0 :: site) env) fun v env' henv => ?_
    exact Recorded.quiet_evaluates henv (op.apply_undefined? v s env')

/-! ## Statements -/

/-- A recorded run whose visits are among the occurrences `us`, and which leaves the names `σ` if
    it comes to its end. -/
structure Recorded.Executes (us : List Use) (σ : Frames) (r : Recorded Run) : Prop where
  met : ∀ v ∈ r.visits, v.use ∈ us
  frames : ∀ v m, r.result = .done v m → m.env.names = σ
  settled : Settled r.result.undefined? r.visits

namespace Recorded.Executes

theorem weaken {us vs : List Use} {σ : Frames} {r : Recorded Run} (h : r.Executes us σ)
    (hsub : ∀ u ∈ us, u ∈ vs) : r.Executes vs σ :=
  ⟨fun v hv => hsub _ (h.met v hv), h.frames, h.settled⟩

theorem done {us : List Use} {σ : Frames} {m : Machine} (v : Value) (h : m.env.names = σ) :
    (Recorded.quiet (.done v m)).Executes us σ :=
  ⟨by simp [quiet], fun _ _ he => (by cases he; exact h), by simp [quiet, Run.undefined?, Settled]⟩

theorem cut {us : List Use} {σ : Frames} (m : Machine) :
    (Recorded.quiet (.cut m)).Executes us σ :=
  ⟨by simp [quiet], nofun, by simp [quiet, Run.undefined?, Settled]⟩

theorem andThen {us : List Use} {σ τ : Frames} {r : Recorded Run}
    {next : Value → Machine → Recorded Run} (h : r.Executes us σ)
    (hnext : ∀ v m, m.env.names = σ → (next v m).Executes us τ) :
    (r.andThen next).Executes us τ := by
  obtain ⟨⟨v, m⟩ | ⟨e, m⟩ | m, visits⟩ := r
  · have hn := hnext v m (h.frames v m rfl)
    refine ⟨fun w hw => ?_, hn.frames, h.settled.append hn.settled⟩
    rcases List.mem_append.mp hw with hw | hw
    · exact h.met w hw
    · exact hn.met w hw
  · exact ⟨h.met, nofun, h.settled⟩
  · exact ⟨h.met, nofun, h.settled⟩

end Recorded.Executes

namespace Machine

theorem evaluate_executes {m : Machine} {σ : Frames} (hσ : m.env.names = σ) (site : Site)
    (e : Expr) : (m.evaluate site e).Executes (e.uses site σ) σ := by
  have h := e.evaluate_evaluates site m.env
  rw [hσ] at h
  obtain ⟨hmet, hframes, hsettled⟩ := h
  unfold evaluate
  generalize e.evaluate site m.env = r at *
  obtain ⟨⟨err | v, env⟩, visits⟩ := r
  · exact ⟨hmet, nofun, hsettled⟩
  · exact ⟨hmet, fun _ _ he => (by cases he; exact hframes), hsettled⟩

theorem evaluate?_executes {m : Machine} {σ : Frames} (hσ : m.env.names = σ) (site : Site)
    (e : Option Expr) : (m.evaluate? site e).Executes (usesOf site σ e) σ := by
  cases e with
  | none => exact .done .null hσ
  | some e => exact evaluate_executes hσ site e

theorem bind_executes {m : Machine} {σ : Frames} (hσ : m.env.names = σ) (site : Site)
    (b : Binding) : (m.bind site b).Executes (b.walk site σ).2 (b.walk site σ).1 := by
  refine (evaluate_executes hσ site b.value).andThen fun v m hm => .done v ?_
  rw [Environment.names_define, hm]
  rfl

theorem begin_executes {m : Machine} {σ : Frames} (hσ : m.env.names = σ) (site : Site)
    (i : Option Init) :
    (m.begin site i).Executes (Init.walk site σ i).2 (Init.walk site σ i).1 := by
  match i with
  | some (.define b) => exact bind_executes hσ site b
  | some (.expr e) => exact evaluate_executes hσ site e
  | none => exact .done .null hσ

/-- A scope is opened before its body and closed after it, so the names outside are the same. -/
theorem inRecordedScope_executes {m : Machine} {σ τ : Frames} {us : List Use}
    {body : Machine → Recorded Run} (hσ : m.env.names = σ) (hτ : τ.pop = σ)
    (hbody : ∀ m, m.env.names = σ.push → (body m).Executes us τ) :
    (m.inRecordedScope body).Executes us σ := by
  have h := hbody { m with env := m.env.push } (by rw [← hσ]; rfl)
  have hne : σ ≠ [] := hσ ▸ m.env.names_ne_nil
  unfold inRecordedScope
  generalize body { m with env := m.env.push } = r at h
  obtain ⟨⟨v, m'⟩ | ⟨e, m'⟩ | m', visits⟩ := r
  · refine ⟨h.met, fun _ _ he => ?_, h.settled⟩
    cases he
    have hm' := h.frames v m' rfl
    rw [Environment.names_pop (by rw [hm', hτ]; exact hne), hm', hτ]
  · exact ⟨h.met, nofun, h.settled⟩
  · exact ⟨h.met, nofun, h.settled⟩

-- By recursion on the steps. A loop comes back to the stack that it started with, since its block
-- closes the scope it has opened, so the next round is again at the occurrences of the walk.
mutual

theorem execute_executes (steps : Nat) (site : Site) (s : Stmt) {m : Machine} {σ : Frames}
    (hσ : m.env.names = σ) :
    (execute steps site s m).Executes (s.walk site σ).2 (s.walk site σ).1 := by
  match steps, s with
  | 0, _ => exact .cut m
  | steps + 1, .define b => exact bind_executes hσ (0 :: site) b
  | steps + 1, .print e =>
    exact (evaluate_executes hσ (0 :: site) e).andThen fun v m hm => .done .null hm
  | steps + 1, .block b =>
    simp only [execute, Stmt.walk, Block.walk_frames]
    exact executeBlock_executes steps (0 :: site) b hσ
  | steps + 1, .branch c b o =>
    simp only [execute, Stmt.walk, Block.walk_frames, Otherwise.walk_frames]
    exact executeBranch_executes steps site c b o hσ
  | steps + 1, .whileLoop c b =>
    simp only [execute, Stmt.walk, Block.walk_frames]
    exact executeWhile_executes steps site c b .null hσ
  | steps + 1, .forLoop i c n b =>
    simp only [execute, Stmt.walk, Block.walk_frames, Frames.pop, Init.tail_walk]
    refine inRecordedScope_executes hσ (Init.tail_walk (0 :: site) σ.push i) fun m hm => ?_
    refine Recorded.Executes.andThen (σ := (Init.walk (0 :: site) σ.push i).1) ?_ fun _ m hm => ?_
    · refine (begin_executes hm (0 :: site) i).weaken fun u hu => ?_
      simp only [List.append_assoc, List.mem_append]
      exact .inl hu
    · refine (executeFor_executes steps site c n b .null hm).weaken fun u hu => ?_
      simp only [List.append_assoc, List.mem_append] at hu ⊢
      exact .inr hu
  | steps + 1, .expr e => exact evaluate_executes hσ (0 :: site) e

theorem executeAll_executes (steps : Nat) (site : Site) (i : Nat) (ss : List Stmt) (last : Value)
    {m : Machine} {σ : Frames} (hσ : m.env.names = σ) :
    (executeAll steps site i ss last m).Executes (Stmt.walkAll site i σ ss).2
      (Stmt.walkAll site i σ ss).1 := by
  match steps, ss with
  | 0, _ => exact .cut m
  | steps + 1, [] => exact .done last hσ
  | steps + 1, s :: ss =>
    refine Recorded.Executes.andThen (σ := (s.walk (i :: site) σ).1) ?_ fun v m hm => ?_
    · exact (execute_executes steps (i :: site) s hσ).weaken
        fun u hu => List.mem_append_left _ hu
    · exact (executeAll_executes steps site (i + 1) ss v hm).weaken
        fun u hu => List.mem_append_right _ hu

theorem executeBlock_executes (steps : Nat) (site : Site) (b : Block) {m : Machine} {σ : Frames}
    (hσ : m.env.names = σ) : (executeBlock steps site b m).Executes (b.walk site σ).2 σ := by
  match steps, b with
  | 0, _ => exact .cut m
  | steps + 1, .mk ss span =>
    exact inRecordedScope_executes hσ (Stmt.tail_walkAll site 0 σ.push ss)
      fun m hm => executeAll_executes steps site 0 ss .null hm

theorem executeBranch_executes (steps : Nat) (site : Site) (c : Expr) (b : Block) (o : Otherwise)
    {m : Machine} {σ : Frames} (hσ : m.env.names = σ) :
    (executeBranch steps site c b o m).Executes
      (c.uses (0 :: site) σ ++ (b.walk (1 :: site) σ).2 ++ (o.walk (2 :: site) σ).2) σ := by
  match steps with
  | 0 => exact .cut m
  | steps + 1 =>
    refine Recorded.Executes.andThen (σ := σ) ?_ fun v m hm => ?_
    · refine (evaluate_executes hσ (0 :: site) c).weaken fun u hu => ?_
      simp [hu]
    · split
      · refine (executeBlock_executes steps (1 :: site) b hm).weaken fun u hu => ?_
        simp [hu]
      · match o with
        | .nothing => exact .done .null hm
        | .block b =>
          refine (executeBlock_executes steps (0 :: 2 :: site) b hm).weaken fun u hu => ?_
          simp [Otherwise.walk, hu]
        | .branch c b o =>
          refine (executeBranch_executes steps (2 :: site) c b o hm).weaken fun u hu => ?_
          simp only [Otherwise.walk, Block.walk_frames]
          exact List.mem_append_right _ hu

theorem executeWhile_executes (steps : Nat) (site : Site) (c : Expr) (b : Block) (last : Value)
    {m : Machine} {σ : Frames} (hσ : m.env.names = σ) :
    (executeWhile steps site c b last m).Executes
      (c.uses (0 :: site) σ ++ (b.walk (1 :: site) σ).2) σ := by
  match steps with
  | 0 => exact .cut m
  | steps + 1 =>
    refine Recorded.Executes.andThen (σ := σ) ?_ fun v m hm => ?_
    · exact (evaluate_executes hσ (0 :: site) c).weaken fun u hu => List.mem_append_left _ hu
    · split
      · refine Recorded.Executes.andThen (σ := σ) ?_ fun v m hm => ?_
        · exact (executeBlock_executes steps (1 :: site) b hm).weaken
            fun u hu => List.mem_append_right _ hu
        · exact executeWhile_executes steps site c b v hm
      · exact .done last hm

theorem executeFor_executes (steps : Nat) (site : Site) (c n : Option Expr) (b : Block)
    (last : Value) {m : Machine} {σ : Frames} (hσ : m.env.names = σ) :
    (executeFor steps site c n b last m).Executes
      (usesOf (1 :: site) σ c ++ usesOf (2 :: site) σ n ++ (b.walk (3 :: site) σ).2) σ := by
  match steps with
  | 0 => exact .cut m
  | steps + 1 =>
    refine Recorded.Executes.andThen (σ := σ) ?_ fun v m hm => ?_
    · refine (evaluate?_executes hσ (1 :: site) c).weaken fun u hu => ?_
      simp [hu]
    · split
      · refine Recorded.Executes.andThen (σ := σ) ?_ fun v m hm => ?_
        · refine (executeBlock_executes steps (3 :: site) b hm).weaken fun u hu => ?_
          simp [hu]
        · refine Recorded.Executes.andThen (σ := σ) ?_ fun _ m hm => ?_
          · refine (evaluate?_executes hm (2 :: site) n).weaken fun u hu => ?_
            simp [hu]
          · exact executeFor_executes steps site c n b v hm
      · exact .done last hm

end

end Machine

/-! ## Programs -/

/-- A visit is just as the walk predicts for an occurrence: at that place of the program, with those
    names in those scopes, and it goes to the scope that the static stack picks. -/
structure Visit.Agrees (v : Visit) (u : Use) : Prop where
  site : v.site = u.site
  access : v.access = u.access
  frames : v.env.names = u.frames
  found : ∀ k, u.frames.pick u.access.name = some k → v.env.Settles u.access.name k
  missing : u.frames.pick u.access.name = none → v.env.Lacks u.access.name

theorem Visit.agrees_use (v : Visit) : v.Agrees v.use :=
  ⟨rfl, rfl, rfl, fun _ hk => Environment.settles_of_pick hk, Environment.lacks_of_pick⟩

theorem Settled.unbound_iff {undefined : Option (String × Span)} {before after : List Visit}
    {v : Visit} (h : Settled undefined (before ++ v :: after)) :
    v.bound = false ↔ after = [] ∧ undefined = some (v.access.name, v.access.span) := by
  match undefined with
  | none =>
    have hv : v.bound = true := h v (by simp)
    simp [hv]
  | some (x, span) =>
    obtain ⟨before', w, heq, hbefore, hw, rfl, rfl⟩ := h
    rcases List.eq_nil_or_concat after with rfl | ⟨rest, last, rfl⟩
    · obtain ⟨rfl, hlast⟩ := List.append_inj' heq rfl
      obtain rfl := (List.cons.inj hlast).1
      simp [hw]
    · have heq' : (before ++ v :: rest) ++ [last] = before' ++ [w] := by simpa using heq
      obtain ⟨rfl, -⟩ := List.append_inj' heq' rfl
      have hv : v.bound = true := hbefore v (by simp)
      simp [hv]

theorem Run.undefined?_eq_some_iff {r : Run} {x : String} {span : Span} :
    r.undefined? = some (x, span) ↔ ∃ m, r = .failed (.undefinedVariable x span) m := by
  cases r with
  | done v m => simp [undefined?]
  | cut m => simp [undefined?]
  | failed e m => cases e <;> simp [undefined?, RuntimeError.undefined?]

/-- Scoping is lexical. A run of any length visits variables only at occurrences that the walk has
    met, with the names, the scopes and the choice of a scope that it predicts. A visit finds its
    variable undefined exactly if no list of the static stack has the name; then it is the last
    visit and the run fails there, and no run says otherwise that a variable is undefined. -/
theorem Program.run_follows_static_scopes (p : Program) (steps : Nat) :
    (Machine.start.runRecorded steps p).result = Machine.start.run steps p ∧
    (p.uses.Pairwise fun u w => u.site ≠ w.site) ∧
    (∀ before v after, (Machine.start.runRecorded steps p).visits = before ++ v :: after →
      ∃ u ∈ p.uses, v.Agrees u ∧
        (u.frames.pick u.access.name = none ↔ after = [] ∧ ∃ m, Machine.start.run steps p =
          .failed (.undefinedVariable u.access.name u.access.span) m)) ∧
    (∀ x span m, Machine.start.run steps p = .failed (.undefinedVariable x span) m →
      ∃ before v, (Machine.start.runRecorded steps p).visits = before ++ [v] ∧
        v.access.name = x ∧ v.access.span = span) := by
  have hresult := Machine.start.runRecorded_result steps p
  have h : (Machine.start.runRecorded steps p).Executes p.uses _ :=
    Machine.executeAll_executes steps [] 0 p.statements .null (σ := [[]]) rfl
  refine ⟨hresult, p.uses_apart, fun before v after heq => ?_, fun x span m hrun => ?_⟩
  · refine ⟨v.use, h.met v (by simp [heq]), v.agrees_use, ?_⟩
    have hunbound := (heq ▸ h.settled).unbound_iff
    rw [hresult, Run.undefined?_eq_some_iff] at hunbound
    simpa [Visit.bound, Visit.use] using hunbound
  · have hsettled := h.settled
    rw [hresult, Run.undefined?_eq_some_iff.mpr ⟨m, hrun⟩] at hsettled
    obtain ⟨before, v, heq, -, -, hname, hspan⟩ := hsettled
    exact ⟨before, v, heq, hname, hspan⟩

end Respell
