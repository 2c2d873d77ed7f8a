-- SUMMARY: A `for` is a block with a `while` in it, and `else if` is `else` with an `if` in it.
import Respell.Proofs.Running.Simulation
import Respell.Proofs.Running.Steps
import Respell.Proofs.Scoping.Nesting

/-!
# Desugaring

A `for` can be written as a block with its start, a `while`, and the increment at the end of the
body. The increment then runs in a scope more than before, and so does the body; the same happens to
the `if` of an `else if` that is put into a block. A scope that binds nothing cannot be noticed by
what opens its own scopes, so the two ways to write it have the same ends.
-/

namespace Respell

/-! ## A scope that binds nothing -/

namespace Environment

/-- The second environment is the first with a scope that binds nothing below the `n` innermost
    ones. -/
def Padded (n : Nat) (a b : Environment) : Prop :=
  ∃ top rest globals, top.length = n ∧ a = ⟨top ++ rest, globals⟩ ∧
    b = ⟨top ++ .empty :: rest, globals⟩

theorem padded_push (env : Environment) : Padded 0 env env.push :=
  ⟨[], env.inner, env.globals, rfl, rfl, rfl⟩

theorem Padded.pop_eq {a b : Environment} (h : Padded 0 a b) : b.pop = a := by
  obtain ⟨top, rest, globals, hlen, rfl, rfl⟩ := h
  obtain rfl := List.eq_nil_of_length_eq_zero hlen
  rfl

theorem Padded.assign {n : Nat} {a b a' b' : Environment} {x : String} {v : Value}
    (h : Padded n a b) (ha : a.assign? x v = some a') (hb : b.assign? x v = some b') :
    Padded n a' b' := by
  obtain ⟨top, rest, globals, hlen, rfl, rfl⟩ := h
  have hempty : ∀ env : Environment, env.push.assign? x v = (env.assign? x v).map push := by
    intro env
    rw [← nest_nil env, push_nest, assign?_nest]
    rfl
  change (nest ⟨rest, globals⟩ top).assign? x v = some a' at ha
  change (nest (push ⟨rest, globals⟩) top).assign? x v = some b' at hb
  rw [assign?_nest] at ha hb
  cases ht : assignIn x v top with
  | some top' =>
    simp only [ht, Option.some.injEq] at ha hb
    exact ⟨top', rest, globals, by rw [length_of_assignIn ht, hlen], ha.symm, hb.symm⟩
  | none =>
    simp only [ht, hempty, Option.map_map] at ha hb
    obtain ⟨env, henv, rfl⟩ := Option.map_eq_some_iff.mp ha
    rw [henv] at hb
    cases hb
    exact ⟨top, env.inner, env.globals, hlen, rfl, rfl⟩

/-- Only a definition at the level of the empty scope itself could tell the two apart. -/
theorem simulation_padded : Simulation (fun _ => True) Labels.same.name 1 Padded where
  base_le := Nat.le_refl 1
  lookup := by
    rintro n a b x ⟨top, rest, globals, -, rfl, rfl⟩ -
    simp [Environment.lookup, scopes, List.findSome?_append, List.findSome?_cons]
  assign := fun h _ ha hb => h.assign ha hb
  define := by
    rintro n a b x v hn ⟨top, rest, globals, hlen, rfl, rfl⟩ -
    cases top with
    | nil =>
      simp only [List.length_nil] at hlen
      omega
    | cons scope top => exact ⟨scope.insert x v :: top, rest, globals, hlen, rfl, rfl⟩
  push := by
    rintro n a b ⟨top, rest, globals, hlen, rfl, rfl⟩
    exact ⟨.empty :: top, rest, globals, by simp [hlen], rfl, rfl⟩
  pop := by
    rintro n a b ⟨top, rest, globals, hlen, rfl, rfl⟩
    cases top with
    | nil => simp at hlen
    | cons scope top => exact ⟨top, rest, globals, by simpa using hlen, rfl, rfl⟩

end Environment

open Environment (Padded simulation_padded)

namespace Machine

/-- What does not notice an empty scope around it can do without. -/
theorem inScope_eq_of_follows {m : Machine} {body : Machine → Run}
    (h : ∀ m', m.Alike (Padded 0) m' → (body m).Follows .same (Padded 0) (body m')) :
    m.inScope body = body m := by
  have hclosed : ∀ {m m' : Machine}, m.Alike (Padded 0) m' → { m' with env := m'.env.pop } = m :=
    fun {m m'} hm => by rw [hm.env.pop_eq, hm.printed]
  have hf := h { m with env := m.env.push } ⟨m.env.padded_push, rfl⟩
  unfold inScope
  generalize body { m with env := m.env.push } = r', body m = r at hf
  cases hf with
  | done v hm => simp only [Run.mapState, hclosed hm]
  | failed e hm => simp only [Run.mapState, hclosed hm, RuntimeError.relabel_same]
  | cut hm => simp only [Run.mapState, hclosed hm]

theorem execBlock_padded (steps : Nat) (b : Block) {m m' : Machine}
    (h : m.Alike (Padded 0) m') :
    (execBlock steps b m).Follows .same (Padded 0) (execBlock steps b m') := by
  have hf := simulation_padded.execBlock steps b h fun _ _ => trivial
  rwa [b.relabel_same] at hf

theorem execBranch_padded (steps : Nat) (c : Expr) (b : Block) (o : Otherwise) {m m' : Machine}
    (h : m.Alike (Padded 0) m') :
    (execBranch steps c b o m).Follows .same (Padded 0) (execBranch steps c b o m') := by
  have hf := simulation_padded.execBranch steps c b o h fun _ _ => trivial
  rwa [c.relabel_same, b.relabel_same, o.relabel_same] at hf

theorem eval?_padded (e : Option Expr) {m m' : Machine} (h : m.Alike (Padded 0) m') :
    (m.eval? e).Follows .same (Padded 0) (m'.eval? e) := by
  have hf := simulation_padded.eval? (e := e) h fun _ _ => trivial
  rwa [map_relabel_same] at hf

end Machine

/-! ## Ends up to the value -/

namespace Run

/-- If the first run came to its end, then the second did so too, with the same error if there is
    one and in the same state. Their values may differ. -/
def Matches (r r' : Run) : Prop :=
  r.ended = true → r'.ended = true ∧ r'.error? = r.error? ∧ r'.state = r.state

theorem andThen_assoc (r : Run) (f g : Value → Machine → Run) :
    (r.andThen f).andThen g = r.andThen fun v m => (f v m).andThen g := by
  cases r <;> rfl

theorem andThen_done (r : Run) : r.andThen .done = r := by
  cases r <;> rfl

theorem Extends.matches {r r' : Run} (h : r.Extends r') : r.Matches r' := by
  intro hr
  rw [h hr]
  exact ⟨hr, rfl, rfl⟩

namespace Matches

theorem done (v v' : Value) (m : Machine) : (Run.done v m).Matches (.done v' m) :=
  fun _ => ⟨rfl, rfl, rfl⟩

theorem trans {r s t : Run} (h : r.Matches s) (h' : s.Matches t) : r.Matches t := by
  intro hr
  obtain ⟨hs, herror, hstate⟩ := h hr
  obtain ⟨ht, herror', hstate'⟩ := h' hs
  exact ⟨ht, herror'.trans herror, hstate'.trans hstate⟩

theorem andThen {r r' : Run} {next next' : Value → Machine → Run} (h : r.Matches r')
    (hnext : ∀ v v' m, (next v m).Matches (next' v' m)) :
    (r.andThen next).Matches (r'.andThen next') := by
  cases r with
  | cut m => exact nofun
  | done v m =>
    obtain ⟨hended, herror, hstate⟩ := h rfl
    cases r' with
    | done v' m' =>
      obtain rfl : m' = m := hstate
      exact hnext v v' m'
    | failed e' m' => cases herror
    | cut m' => cases hended
  | failed e m =>
    obtain ⟨hended, herror, hstate⟩ := h rfl
    cases r' with
    | done v' m' => cases herror
    | failed e' m' => exact fun _ => ⟨rfl, herror, hstate⟩
    | cut m' => cases hended

/-- After the same run, the values are the same. -/
theorem andThen_same (r : Run) {next next' : Value → Machine → Run}
    (hnext : ∀ v m, (next v m).Matches (next' v m)) :
    (r.andThen next).Matches (r.andThen next') := by
  cases r with
  | done v m => exact hnext v m
  | failed e m => exact fun _ => ⟨rfl, rfl, rfl⟩
  | cut m => exact nofun

theorem mapState {r r' : Run} (f : Machine → Machine) (h : r.Matches r') :
    (r.mapState f).Matches (r'.mapState f) := by
  intro hr
  have hr' : r.ended = true := by cases r <;> first | rfl | cases hr
  obtain ⟨hended, herror, hstate⟩ := h hr'
  cases r <;> cases r' <;> simp_all [Run.mapState, ended, error?, state]

end Matches

end Run

/-! ## Loops -/

/-- The start of a `for` as statements. -/
def Init.statements : Option Init → List Stmt
  | some (.define b) => [.define b]
  | some (.expr e) => [.expr e]
  | none => []

/-- A round of a `for`: its body as a block, and then the increment. -/
def Block.round (span : Span) (b : Block) (increment : Option Expr) : Block :=
  .mk (.block b :: (increment.map Stmt.expr).toList) span

/-- A condition that is left out is `true`. -/
def conditionOf (span : Span) (condition : Option Expr) : Expr :=
  condition.getD (.bool true span)

/-- The block `{ init; while (condition) { { body } increment; } }`. What it has more than the `for`
    stands at `span`. -/
def Stmt.ofFor (span : Span) (init : Option Init) (condition increment : Option Expr)
    (body : Block) : Stmt :=
  .block (.mk
    (Init.statements init ++ [.whileLoop (conditionOf span condition) (body.round span increment)])
    span)

namespace Machine

variable {span : Span} {c n : Option Expr} {b : Block}

theorem execAll_increment (steps : Nat) (v : Value) (m : Machine) :
    execAll (steps + 2) (n.map Stmt.expr).toList v m =
      (m.eval? n).andThen fun w m => .done (if n.isNone then v else w) m := by
  cases n with
  | none => rfl
  | some e => rfl

/-- A round is the body and then the increment, with enough steps. -/
theorem execBlock_round (steps : Nat) (m : Machine) :
    execBlock (steps + 4) (b.round span n) m =
      (execBlock (steps + 1) b m).andThen fun v m =>
        (m.eval? n).andThen fun w m => .done (if n.isNone then v else w) m := by
  have hbody : ∀ m : Machine, execAll (steps + 3) (b.round span n).statements .null m =
      (execBlock (steps + 1) b m).andThen fun v m =>
        (m.eval? n).andThen fun w m => .done (if n.isNone then v else w) m := by
    intro m
    change (execBlock (steps + 1) b m).andThen (fun v m =>
      execAll (steps + 2) (n.map Stmt.expr).toList v m) = _
    simp only [execAll_increment]
  change m.inScope (fun m => execAll (steps + 3) (b.round span n).statements .null m) = _
  simp only [hbody]
  refine inScope_eq_of_follows fun m' hm => ?_
  refine (execBlock_padded (steps + 1) b hm).andThen fun v m m' hm => ?_
  exact (eval?_padded n hm).andThen fun w m m' hm => .done _ hm

/-- A condition that is left out holds, and so does `true`. -/
theorem eval_conditionOf (next : Machine → Run) (last : Value) (m : Machine) :
    ((m.eval (conditionOf span c)).andThen fun v m =>
        if v.truthy then next m else .done last m) =
      (m.eval? c).andThen fun v m => if holds c v then next m else .done last m := by
  cases c <;> rfl

/-- The rounds of a `for` end as the `while` does, which needs a few more steps for each round. -/
theorem execFor_matches (steps : Nat) (last last' : Value) (m : Machine) :
    (execFor steps c n b last m).Matches
      (execWhile (steps + 4) (conditionOf span c) (b.round span n) last' m) := by
  induction steps generalizing last last' m with
  | zero => exact nofun
  | succ steps ih =>
    rw [execWhile, eval_conditionOf (fun m => (execBlock (steps + 4) (b.round span n) m).andThen _),
      execFor]
    refine .andThen_same (m.eval? c) fun v m => ?_
    split
    · rw [execBlock_round, Run.andThen_assoc]
      refine (execBlock_extends steps b m).matches.andThen fun v v' m => ?_
      rw [Run.andThen_assoc]
      exact .andThen_same (m.eval? n) fun w m => ih _ _ m
    · exact .done last last' m

/-- The `while` ends as the rounds of the `for` do. -/
theorem execWhile_matches (steps : Nat) (last last' : Value) (m : Machine) :
    (execWhile steps (conditionOf span c) (b.round span n) last m).Matches
      (execFor (steps + 1) c n b last' m) := by
  induction steps generalizing last last' m with
  | zero => exact nofun
  | succ steps ih =>
    rw [execWhile, eval_conditionOf (fun m => (execBlock steps (b.round span n) m).andThen _),
      execFor]
    refine .andThen_same (m.eval? c) fun v m => ?_
    split
    · have hmore : (execBlock steps (b.round span n) m).Extends
          (execBlock (steps + 4) (b.round span n) m) :=
        .of_le (fun k => execBlock_extends k (b.round span n) m) (by omega)
      refine (hmore.andThen fun v m => .refl _).matches.trans ?_
      rw [execBlock_round, Run.andThen_assoc]
      refine .andThen_same (execBlock (steps + 1) b m) fun v m => ?_
      rw [Run.andThen_assoc]
      exact .andThen_same (m.eval? n) fun w m => ih _ _ m
    · exact .done last last' m

/-- The statements of the block of a `for` are its start and then the loop. -/
theorem execAll_start (steps : Nat) (i : Option Init) (c : Expr) (b : Block) (m : Machine) :
    execAll (steps + ((Init.statements i).length + 2)) (Init.statements i ++ [.whileLoop c b]) .null
        m =
      (m.init i).andThen fun _ m => execWhile steps c b .null m := by
  have hloop : ∀ v (m : Machine), execAll (steps + 2) [.whileLoop c b] v m =
      execWhile steps c b .null m := fun v m => Run.andThen_done (execWhile steps c b .null m)
  match i with
  | none => exact hloop .null m
  | some (.define d) => exact congrArg (m.define d).andThen (funext fun v => funext (hloop v))
  | some (.expr e) => exact congrArg (m.eval e).andThen (funext fun v => funext (hloop v))

theorem exec_ofFor (steps : Nat) (i : Option Init) (m : Machine) :
    exec (steps + ((Init.statements i).length + 4)) (.ofFor span i c n b) m =
      m.inScope fun m => (m.init i).andThen fun _ m =>
        execWhile steps (conditionOf span c) (b.round span n) .null m := by
  simp only [← execAll_start]
  rfl

/-- A `for` ends as its block does. -/
theorem forLoop_matches (span : Span) (steps : Nat) (i : Option Init) (m : Machine) :
    (exec steps (.forLoop i c n b) m).Matches
      (exec (steps + 3 + ((Init.statements i).length + 4)) (.ofFor span i c n b) m) := by
  cases steps with
  | zero => exact nofun
  | succ steps =>
    rw [exec_ofFor, exec]
    refine Run.Matches.mapState _ (.andThen_same _ fun _ m => ?_)
    exact execFor_matches steps .null .null m

/-- The block of a `for` ends as the `for` does. -/
theorem ofFor_matches (span : Span) (steps : Nat) (i : Option Init) (m : Machine) :
    (exec steps (.ofFor span i c n b) m).Matches (exec (steps + 2) (.forLoop i c n b) m) := by
  have hmore : (exec steps (.ofFor span i c n b) m).Extends
      (exec (steps + ((Init.statements i).length + 4)) (.ofFor span i c n b) m) :=
    .of_le (fun k => exec_extends k (.ofFor span i c n b) m) (by omega)
  refine hmore.matches.trans ?_
  rw [exec_ofFor, exec]
  refine Run.Matches.mapState _ (.andThen_same _ fun _ m => ?_)
  exact execWhile_matches steps .null .null m

/-! ## Branches -/

/-- An `if` alone in a block is the `if`. -/
theorem execBlock_branch (steps : Nat) (c : Expr) (b : Block) (o : Otherwise) (span : Span)
    (m : Machine) :
    execBlock (steps + 3) (.mk [.branch c b o] span) m = execBranch steps c b o m := by
  have hbody : ∀ m : Machine, execAll (steps + 2) [.branch c b o] .null m =
      execBranch steps c b o m := fun m => Run.andThen_done (execBranch steps c b o m)
  change m.inScope (fun m => execAll (steps + 2) [.branch c b o] .null m) = _
  simp only [hbody]
  exact inScope_eq_of_follows fun m' hm => execBranch_padded steps c b o hm

theorem elseIf_extends (steps : Nat) (c c' : Expr) (b b' : Block) (o : Otherwise) (span : Span)
    (m : Machine) :
    (execBranch steps c b (.branch c' b' o) m).Extends
      (execBranch (steps + 3) c b (.block (.mk [.branch c' b' o] span)) m) := by
  cases steps with
  | zero => exact .cut m _
  | succ steps =>
    refine (Run.Extends.refl (m.eval c)).andThen fun v m => ?_
    cases v.truthy with
    | true => exact .of_le (fun k => execBlock_extends k b m) (by omega)
    | false => exact fun _ => execBlock_branch steps c' b' o span m

theorem elseBlock_extends (steps : Nat) (c c' : Expr) (b b' : Block) (o : Otherwise) (span : Span)
    (m : Machine) :
    (execBranch steps c b (.block (.mk [.branch c' b' o] span)) m).Extends
      (execBranch steps c b (.branch c' b' o) m) := by
  cases steps with
  | zero => exact .cut m _
  | succ steps =>
    refine (Run.Extends.refl (m.eval c)).andThen fun v m => ?_
    cases v.truthy with
    | true => exact .refl _
    | false =>
      have hmore : (execBlock steps (.mk [.branch c' b' o] span) m).Extends
          (execBlock (steps + 3) (.mk [.branch c' b' o] span) m) :=
        .of_le (fun k => execBlock_extends k (.mk [.branch c' b' o] span) m) (by omega)
      rwa [execBlock_branch] at hmore

/-! ## The two ways to write it -/

/-- Two statements of which each extends the other have the same ends. -/
theorem ends_iff {m : Machine} {s s' : Stmt}
    (h : ∀ steps, ∃ steps', (exec steps s m).Extends (exec steps' s' m))
    (h' : ∀ steps, ∃ steps', (exec steps s' m).Extends (exec steps' s m)) (r : Run) :
    m.Ends s r ↔ m.Ends s' r := by
  constructor
  · rintro ⟨hr, steps, rfl⟩
    obtain ⟨steps', hext⟩ := h steps
    exact ⟨hr, steps', hext hr⟩
  · rintro ⟨hr, steps, rfl⟩
    obtain ⟨steps', hext⟩ := h' steps
    exact ⟨hr, steps', hext hr⟩

/-- Loops and branches can be written with less. A `for` comes to an end exactly if its block with a
    `while` does, and then with the same error or none, and in the same state: what was printed and
    the whole environment. An `else if` and an `else` with the `if` in a block have the same ends,
    values included. -/
theorem desugaring_sound (m : Machine) (span : Span) :
    (∀ i c n b,
      ((∃ r, m.Ends (.forLoop i c n b) r) ↔ ∃ r, m.Ends (.ofFor span i c n b) r) ∧
      ∀ r r', m.Ends (.forLoop i c n b) r → m.Ends (.ofFor span i c n b) r' →
        r'.error? = r.error? ∧ r'.state = r.state) ∧
    (∀ c b c' b' o r,
      m.Ends (.branch c b (.branch c' b' o)) r ↔
        m.Ends (.branch c b (.block (.mk [.branch c' b' o] span))) r) := by
  refine ⟨fun i c n b => ⟨⟨?_, ?_⟩, ?_⟩, fun c b c' b' o r => ends_iff ?_ ?_ r⟩
  · rintro ⟨r, hr, steps, rfl⟩
    exact ⟨_, (forLoop_matches span steps i m hr).1, _, rfl⟩
  · rintro ⟨r, hr, steps, rfl⟩
    exact ⟨_, (ofFor_matches span steps i m hr).1, _, rfl⟩
  · rintro r r' ⟨hr, steps, rfl⟩ hr'
    obtain ⟨hended, herror, hstate⟩ := forLoop_matches span steps i m hr
    obtain rfl := Ends.unique ⟨hended, _, rfl⟩ hr'
    exact ⟨herror, hstate⟩
  · rintro (_ | steps)
    · exact ⟨0, .cut m _⟩
    · exact ⟨steps + 4, elseIf_extends steps c c' b b' o span m⟩
  · rintro (_ | steps)
    · exact ⟨0, .cut m _⟩
    · exact ⟨steps + 1, elseBlock_extends steps c c' b b' o span m⟩

end Machine

end Respell
