-- SUMMARY: A stack of scopes answers like one stack of bindings for each name.
import Respell.Proofs.Scoping.Nesting

/-!
# Bindings by name

An environment keeps a list of scopes and searches it from the innermost one outwards. The same can
be kept the other way round: for each name the stack of its bindings, each with the depth of its
scope. `Environment.bindings` reads these stacks off an environment, and each operation on scopes is
through it the operation on stacks. So the two answer any sequence of calls alike. The global scope
is what the stacks have at depth 1; only the order of its names is not in the stacks, and it is that
of the first definitions that were made at depth 1.
-/

namespace Respell

/-! ## Stores -/

/-- A way to keep what the names are bound to in nested scopes. -/
structure Store (σ : Type) where
  push : σ → σ
  pop : σ → σ
  define : σ → String → Value → σ
  /-- none if the name is not bound -/
  assign? : σ → String → Value → Option σ
  lookup : σ → String → Option Value
  depth : σ → Nat

namespace Store

/-- What can be asked of a store. -/
inductive Call where
  | push
  | pop
  | define (name : String) (value : Value)
  | assign (name : String) (value : Value)
  | lookup (name : String)
  | depth

/-- What a store answers. -/
inductive Answer where
  | silent
  | assigned (bound : Bool)
  | found (value : Option Value)
  | depth (n : Nat)

variable {σ τ : Type}

/-- Answer a call. An assignment to a name that is not bound changes nothing. -/
def perform (S : Store σ) (s : σ) : Call → σ × Answer
  | .push => (S.push s, .silent)
  | .pop => (S.pop s, .silent)
  | .define x v => (S.define s x v, .silent)
  | .assign x v =>
    match S.assign? s x v with
    | some after => (after, .assigned true)
    | none => (s, .assigned false)
  | .lookup x => (s, .found (S.lookup s x))
  | .depth => (s, .depth (S.depth s))

/-- The state after some calls. -/
def after (S : Store σ) (s : σ) (calls : List Call) : σ :=
  calls.foldl (fun s call => (S.perform s call).1) s

/-- The answers to some calls, in order. -/
def answers (S : Store σ) (s : σ) : List Call → List Answer
  | [] => []
  | call :: calls => (S.perform s call).2 :: S.answers (S.perform s call).1 calls

/-- The name that a call defines at a depth, if it does. -/
def definedBy (S : Store σ) (d : Nat) (s : σ) : Call → List String
  | .define x _ => if S.depth s = d then [x] else []
  | _ => []

/-- The names that some calls define at a depth, in order. -/
def defined (S : Store σ) (d : Nat) (s : σ) : List Call → List String
  | [] => []
  | call :: calls => S.definedBy d s call ++ S.defined d (S.perform s call).1 calls

/-- One store does what another does, seen through `f`. -/
structure Refines (S : Store σ) (T : Store τ) (f : σ → τ) : Prop where
  push : ∀ s, T.push (f s) = f (S.push s)
  pop : ∀ s, T.pop (f s) = f (S.pop s)
  define : ∀ s x v, T.define (f s) x v = f (S.define s x v)
  assign? : ∀ s x v, T.assign? (f s) x v = (S.assign? s x v).map f
  lookup : ∀ s x, T.lookup (f s) x = S.lookup s x
  depth : ∀ s, T.depth (f s) = S.depth s

namespace Refines

variable {S : Store σ} {T : Store τ} {f : σ → τ}

theorem perform (h : S.Refines T f) (s : σ) (call : Call) :
    T.perform (f s) call = (f (S.perform s call).1, (S.perform s call).2) := by
  cases call with
  | push => simp [Store.perform, h.push]
  | pop => simp [Store.perform, h.pop]
  | define x v => simp [Store.perform, h.define]
  | assign x v =>
    simp only [Store.perform, h.assign?]
    cases S.assign? s x v <;> rfl
  | lookup x => simp [Store.perform, h.lookup]
  | depth => simp [Store.perform, h.depth]

theorem after (h : S.Refines T f) (s : σ) (calls : List Call) :
    T.after (f s) calls = f (S.after s calls) := by
  induction calls generalizing s with
  | nil => rfl
  | cons call calls ih =>
    rw [Store.after, List.foldl_cons, h.perform]
    exact ih _

theorem answers (h : S.Refines T f) (s : σ) (calls : List Call) :
    T.answers (f s) calls = S.answers s calls := by
  induction calls generalizing s with
  | nil => rfl
  | cons call calls ih => rw [Store.answers, Store.answers, h.perform, ih]

theorem defined (h : S.Refines T f) (d : Nat) (s : σ) (calls : List Call) :
    T.defined d (f s) calls = S.defined d s calls := by
  induction calls generalizing s with
  | nil => rfl
  | cons call calls ih =>
    have hone : T.definedBy d (f s) call = S.definedBy d s call := by
      cases call with
      | define x v => simp only [definedBy, h.depth]
      | _ => rfl
    rw [Store.defined, Store.defined, h.perform, hone, ih]

end Refines

end Store

/-! ## Stacks of bindings -/

/-- How deep the scopes are nested, and for each name the stack of its bindings, the innermost
    first, each with the depth of its scope. -/
structure Bindings where
  depth : Nat
  stack : String → List (Nat × Value)

namespace Bindings

/-- Nothing is bound, and only the global scope is open. -/
def start : Bindings :=
  ⟨1, fun _ => []⟩

/-- Change the stack of one name. -/
def update (b : Bindings) (x : String) (stack : List (Nat × Value)) : Bindings :=
  { b with stack := fun y => if y = x then stack else b.stack y }

/-- Close the innermost scope, with all its bindings; the global one stays. -/
def pop (b : Bindings) : Bindings :=
  if b.depth > 1 then ⟨b.depth - 1, fun x => (b.stack x).filter fun p => p.1 ≠ b.depth⟩ else b

/-- Put a binding on a stack, in place of the top one if that is of the same depth. -/
def bind (d : Nat) (v : Value) : List (Nat × Value) → List (Nat × Value)
  | [] => [(d, v)]
  | (k, w) :: rest => if k = d then (d, v) :: rest else (d, v) :: (k, w) :: rest

/-- Change the top binding of a name; none if there is none. -/
def assign? (b : Bindings) (x : String) (v : Value) : Option Bindings :=
  match b.stack x with
  | [] => none
  | (k, _) :: rest => some (b.update x ((k, v) :: rest))

/-- Stacks of bindings as a store. -/
def store : Store Bindings where
  push b := { b with depth := b.depth + 1 }
  pop := pop
  define b x v := b.update x (bind b.depth v (b.stack x))
  assign? := assign?
  lookup b x := (b.stack x).head?.map Prod.snd
  depth := depth

end Bindings

namespace Environment

/-- An environment as a store. -/
def store : Store Environment where
  push := push
  pop := pop
  define := define
  assign? := assign?
  lookup := lookup
  depth := depth

/-! ## The stacks of an environment -/

/-- The bindings of a name in some scopes, the innermost first. -/
def bindingsIn (x : String) : List Scope → List (Nat × Value)
  | [] => []
  | scope :: outer =>
    match scope.get? x with
    | some v => (outer.length + 1, v) :: bindingsIn x outer
    | none => bindingsIn x outer

/-- The bindings of an environment by name. -/
def bindings (env : Environment) : Bindings :=
  ⟨env.depth, fun x => bindingsIn x env.scopes⟩

variable {x y : String} {v : Value} {scope : Scope} {outer : List Scope}

theorem bindingsIn_of_none (h : scope.get? x = none) :
    bindingsIn x (scope :: outer) = bindingsIn x outer := by
  rw [bindingsIn, h]

theorem bindingsIn_of_some (h : scope.get? x = some v) :
    bindingsIn x (scope :: outer) = (outer.length + 1, v) :: bindingsIn x outer := by
  rw [bindingsIn, h]

theorem depth_le_of_mem_bindingsIn {scopes : List Scope} {p : Nat × Value}
    (h : p ∈ bindingsIn x scopes) : p.1 ≤ scopes.length := by
  induction scopes with
  | nil => cases h
  | cons scope outer ih =>
    cases hx : scope.get? x with
    | none =>
      rw [bindingsIn_of_none hx] at h
      exact Nat.le_succ_of_le (ih h)
    | some w =>
      rw [bindingsIn_of_some hx] at h
      cases h with
      | head => exact Nat.le_refl _
      | tail _ h => exact Nat.le_succ_of_le (ih h)

/-- Without the bindings of the innermost scope there are those of the others. -/
theorem filter_bindingsIn (x : String) (scope : Scope) (outer : List Scope) :
    (bindingsIn x (scope :: outer)).filter (fun p => p.1 ≠ outer.length + 1) =
      bindingsIn x outer := by
  have hkeep : (bindingsIn x outer).filter (fun p => p.1 ≠ outer.length + 1) =
      bindingsIn x outer := by
    rw [List.filter_eq_self]
    intro p hp
    have := depth_le_of_mem_bindingsIn hp
    exact decide_eq_true (by omega)
  cases hx : scope.get? x with
  | none => rw [bindingsIn_of_none hx, hkeep]
  | some w => rw [bindingsIn_of_some hx, List.filter_cons_of_neg (by simp), hkeep]

theorem bindingsIn_insert (x y : String) (v : Value) (scope : Scope) (outer : List Scope) :
    bindingsIn y (scope.insert x v :: outer) =
      if y = x then Bindings.bind (outer.length + 1) v (bindingsIn x (scope :: outer))
      else bindingsIn y (scope :: outer) := by
  by_cases hy : y = x
  · subst hy
    rw [if_pos rfl, bindingsIn_of_some (scope.get?_insert y y v |>.trans (if_pos rfl))]
    cases hx : scope.get? y with
    | some w => rw [bindingsIn_of_some hx, Bindings.bind, if_pos rfl]
    | none =>
      rw [bindingsIn_of_none hx]
      cases hrest : bindingsIn y outer with
      | nil => rfl
      | cons p rest =>
        have hp : p.1 ≤ outer.length :=
          depth_le_of_mem_bindingsIn (x := y) (by rw [hrest]; exact List.mem_cons_self)
        rw [Bindings.bind, if_neg (by omega)]
  · rw [if_neg hy, bindingsIn, bindingsIn, scope.get?_insert, if_neg hy]

theorem lookup_eq_head? (x : String) (scopes : List Scope) :
    scopes.findSome? (fun s => s.get? x) = (bindingsIn x scopes).head?.map Prod.snd := by
  induction scopes with
  | nil => rfl
  | cons scope outer ih =>
    rw [List.findSome?_cons]
    cases hx : scope.get? x with
    | none => rw [bindingsIn_of_none hx, ← ih]
    | some w => rw [bindingsIn_of_some hx]; rfl

/-- An assignment changes the top binding of its name and nothing else. -/
theorem bindingsIn_of_assignIn {scopes after : List Scope} (h : assignIn x v scopes = some after) :
    ∃ k w rest, bindingsIn x scopes = (k, w) :: rest ∧
      ∀ y, bindingsIn y after = if y = x then (k, v) :: rest else bindingsIn y scopes := by
  induction scopes generalizing after with
  | nil => cases h
  | cons scope outer ih =>
    rw [assignIn] at h
    split at h
    · next hc =>
      cases h
      obtain ⟨w, hw⟩ := Option.isSome_iff_exists.mp
        (Scope.get?_isSome_iff.mpr (Scope.contains_iff.mp hc))
      refine ⟨outer.length + 1, w, bindingsIn x outer, bindingsIn_of_some hw, fun y => ?_⟩
      rw [bindingsIn, bindingsIn, scope.get?_replace, hw]
      by_cases hy : y = x <;> simp [hy]
    · next hc =>
      have hx : scope.get? x = none :=
        Scope.get?_eq_none_iff.mpr fun hm => hc (Scope.contains_iff.mpr hm)
      obtain ⟨outer', ho, rfl⟩ := Option.map_eq_some_iff.mp h
      obtain ⟨k, w, rest, hstack, hafter⟩ := ih ho
      refine ⟨k, w, rest, by rw [bindingsIn_of_none hx, hstack], fun y => ?_⟩
      rw [bindingsIn, bindingsIn, hafter y, length_of_assignIn ho]
      by_cases hy : y = x <;> simp [hy, hx]

/-- The bindings at depth 1 are those of the last scope. -/
theorem mem_bindingsIn_one (x : String) (v : Value) (inner : List Scope) (last : Scope) :
    (1, v) ∈ bindingsIn x (inner ++ [last]) ↔ last.get? x = some v := by
  induction inner with
  | nil =>
    rw [List.nil_append, bindingsIn]
    cases last.get? x <;> simp [bindingsIn, eq_comm]
  | cons scope inner ih =>
    rw [List.cons_append, bindingsIn, ← ih]
    cases scope.get? x <;> simp

/-! ## Refinement -/

theorem length_scopes (env : Environment) : env.scopes.length = env.depth := by
  simp [scopes, depth]

theorem bindings_pop (env : Environment) : env.bindings.pop = env.pop.bindings := by
  obtain ⟨inner, globals⟩ := env
  cases inner with
  | nil => rfl
  | cons scope outer =>
    have hdepth : (outer ++ [globals]).length + 1 = outer.length + 1 + 1 := by simp
    simp only [Bindings.pop, bindings, pop, depth, scopes, List.length_cons, List.cons_append,
      List.tail_cons, ← hdepth, filter_bindingsIn]
    simp

theorem bindings_define (env : Environment) (x : String) (v : Value) :
    env.bindings.update x (Bindings.bind env.depth v (env.bindings.stack x)) =
      (env.define x v).bindings := by
  obtain ⟨scope, outer, hscopes, hdefine⟩ := env.scopes_define x v
  have hdepth : env.depth = outer.length + 1 := by rw [← length_scopes, hscopes]; rfl
  simp only [Bindings.update, bindings, hscopes, hdefine, bindingsIn_insert, depth_define, hdepth]

theorem bindings_assign? (env : Environment) (x : String) (v : Value) :
    env.bindings.assign? x v = (env.assign? x v).map bindings := by
  have hscopes := env.assign?_scopes x v
  cases h : env.assign? x v with
  | none =>
    have hempty : bindingsIn x env.scopes = [] := by
      have := assign?_eq_none_iff.mp h
      rwa [lookup, lookup_eq_head?, Option.map_eq_none_iff, List.head?_eq_none_iff] at this
    simp [Bindings.assign?, bindings, hempty]
  | some after =>
    rw [h] at hscopes
    obtain ⟨k, w, rest, hstack, hafter⟩ := bindingsIn_of_assignIn hscopes.symm
    have hdepth : after.depth = env.depth := by
      rw [← length_scopes, ← length_scopes, length_of_assignIn hscopes.symm]
    simp [Bindings.assign?, Bindings.update, bindings, hstack, hafter, hdepth]

/-- Scopes do what stacks of bindings do. -/
theorem store_refines : store.Refines Bindings.store bindings where
  push _ := rfl
  pop := bindings_pop
  define := bindings_define
  assign? := bindings_assign?
  lookup env x := (lookup_eq_head? x env.scopes).symm
  depth _ := rfl

/-! ## The global scope -/

theorem globals_names_of_assign? {env after : Environment} (h : env.assign? x v = some after) :
    after.globals.names = env.globals.names := by
  have hlast := congrArg List.getLast? (names_of_assign? h)
  simpa [names, scopes] using hlast

theorem globals_names_define (env : Environment) (x : String) (v : Value) :
    (env.define x v).globals.names =
      if env.depth = 1 ∧ x ∉ env.globals.names then env.globals.names ++ [x]
      else env.globals.names := by
  obtain ⟨inner, globals⟩ := env
  cases inner with
  | nil =>
    simp only [define, depth, Scope.insert_names]
    by_cases hx : x ∈ globals.names <;> simp [hx]
  | cons scope outer => simp [define, depth]

theorem globals_names_perform {env : Environment} {names : List String}
    (h : env.globals.names = names.eraseDups) (call : Store.Call) :
    (store.perform env call).1.globals.names =
      (names ++ store.definedBy 1 env call).eraseDups := by
  cases call with
  | define x v =>
    have hmem : x ∈ env.globals.names ↔ x ∈ names := by rw [h, List.mem_eraseDups]
    have hdefine := env.globals_names_define x v
    simp only [Store.perform, Store.definedBy, store, hdefine, hmem]
    by_cases hdepth : env.depth = 1 <;> by_cases hx : x ∈ names <;>
      simp [hdepth, hx, h, List.eraseDups_append, List.eraseDups_cons, List.removeAll]
  | assign x v =>
    simp only [Store.perform, Store.definedBy, List.append_nil, ← h]
    cases ha : store.assign? env x v with
    | none => rfl
    | some after => exact globals_names_of_assign? ha
  | push => simpa [Store.perform, Store.definedBy, store, push] using h
  | pop => simpa [Store.perform, Store.definedBy, store, pop] using h
  | lookup x => simpa [Store.perform, Store.definedBy] using h
  | depth => simpa [Store.perform, Store.definedBy] using h

/-- The names of the global scope stand in the order of their first definitions at depth 1. -/
theorem globals_names_after {env : Environment} {names : List String}
    (h : env.globals.names = names.eraseDups) (calls : List Store.Call) :
    (store.after env calls).globals.names = (names ++ store.defined 1 env calls).eraseDups := by
  induction calls generalizing env names with
  | nil => simpa [Store.after, Store.defined] using h
  | cons call calls ih =>
    rw [Store.defined, ← List.append_assoc]
    exact ih (globals_names_perform h call)

/-- A stack of scopes refines one stack of bindings for each name. From the start, any calls have
    the same answers from both. And whatever scopes are then open, the global scope has exactly the
    bindings at depth 1, each name once, in the order of their first definitions at depth 1. -/
theorem refines_bindings (calls : List Store.Call) :
    store.answers .empty calls = Bindings.store.answers .start calls ∧
    (store.after .empty calls).globals.names =
      (Bindings.store.defined 1 .start calls).eraseDups ∧
    (store.after .empty calls).globals.names.Nodup ∧
    (∀ x, x ∈ (store.after .empty calls).globals.names ↔
      ∃ v, (1, v) ∈ (Bindings.store.after .start calls).stack x) ∧
    ∀ x v, (x, v) ∈ (store.after .empty calls).globals.entries ↔
      (1, v) ∈ (Bindings.store.after .start calls).stack x := by
  have hstart : bindings .empty = .start := rfl
  have hnone : Environment.empty.globals.names = ([] : List String).eraseDups := rfl
  have hentries : ∀ x v, (x, v) ∈ (store.after .empty calls).globals.entries ↔
      (1, v) ∈ (Bindings.store.after .start calls).stack x := by
    intro x v
    rw [← hstart, store_refines.after]
    exact Scope.get?_eq_some_iff.symm.trans (mem_bindingsIn_one x v _ _).symm
  refine ⟨?_, ?_, (store.after .empty calls).globals.nodup, fun x => ?_, hentries⟩
  · rw [← hstart, store_refines.answers]
  · rw [← hstart, store_refines.defined]
    exact globals_names_after hnone calls
  · simp only [← hentries, Scope.names, List.mem_map, Prod.exists, exists_and_right,
      exists_eq_right]

end Environment

end Respell
