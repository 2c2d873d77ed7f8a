-- SUMMARY: Look-up and assignment in an environment with more scopes inside it.
import Respell.Proofs.Scoping.Lexical

/-!
# Environments inside others

Some scopes are opened inside an environment. A look-up or an assignment goes to them first, and to
the environment only if none of them has the name.
-/

namespace Respell.Environment

theorem length_of_assignIn {x : String} {v : Value} {scopes after : List Scope}
    (h : assignIn x v scopes = some after) : after.length = scopes.length := by
  have := congrArg List.length (names_of_assignIn h)
  simpa using this

/-- The environment with some scopes opened inside it, the innermost first. -/
def nest (env : Environment) (top : List Scope) : Environment :=
  { env with inner := top ++ env.inner }

@[simp] theorem nest_nil (env : Environment) : env.nest [] = env := rfl

@[simp] theorem push_nest (env : Environment) (top : List Scope) :
    (env.nest top).push = env.nest (.empty :: top) := rfl

@[simp] theorem pop_nest (env : Environment) (scope : Scope) (top : List Scope) :
    (env.nest (scope :: top)).pop = env.nest top := rfl

@[simp] theorem define_nest (env : Environment) (scope : Scope) (top : List Scope) (x : String)
    (v : Value) :
    (env.nest (scope :: top)).define x v = env.nest (scope.insert x v :: top) := rfl

theorem lookup_nest (env : Environment) (top : List Scope) (x : String) :
    (env.nest top).lookup x = (top.findSome? fun s => s.get? x).or (env.lookup x) := by
  have hscopes : (env.nest top).scopes = top ++ env.scopes := List.append_assoc _ _ _
  rw [lookup, hscopes, List.findSome?_append]
  rfl

theorem assign?_nest (env : Environment) (top : List Scope) (x : String) (v : Value) :
    (env.nest top).assign? x v =
      match assignIn x v top with
      | some top => some (env.nest top)
      | none => (env.assign? x v).map (·.nest top) := by
  simp only [assign?, nest, assignIn_append]
  cases assignIn x v top with
  | some top' => rfl
  | none =>
    cases assignIn x v env.inner with
    | some inner => rfl
    | none =>
      by_cases hg : env.globals.contains x = true <;> simp [hg]

end Respell.Environment
