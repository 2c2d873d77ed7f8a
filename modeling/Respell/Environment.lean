-- SUMMARY: The stack of scopes that a running program sees.
import Respell.Scope

/-!
# Environments

An environment is a stack of scopes over the global one, which is always there. A definition goes
to the innermost scope; a look-up or an assignment goes to the innermost scope that has the name.
-/

namespace Respell

/-- The global scope, and the scopes opened inside it, the innermost first. -/
structure Environment where
  inner : List Scope
  globals : Scope
deriving Inhabited

namespace Environment

/-- An empty global scope and nothing else. -/
def empty : Environment :=
  ⟨[], .empty⟩

/-- All scopes, the innermost first. -/
def scopes (env : Environment) : List Scope :=
  env.inner ++ [env.globals]

/-- How many scopes are open. -/
def depth (env : Environment) : Nat :=
  env.inner.length + 1

/-- Open a scope. -/
def push (env : Environment) : Environment :=
  { env with inner := .empty :: env.inner }

/-- Close the innermost scope; the global one stays. -/
def pop (env : Environment) : Environment :=
  { env with inner := env.inner.tail }

/-- Bind a name in the innermost scope. -/
def define (env : Environment) (name : String) (v : Value) : Environment :=
  match env.inner with
  | [] => { env with globals := env.globals.insert name v }
  | scope :: outer => { env with inner := scope.insert name v :: outer }

/-- The value of a name in the innermost scope that has it. -/
def lookup (env : Environment) (name : String) : Option Value :=
  env.scopes.findSome? fun scope => scope.get? name

/-- Change a name in the first of some scopes that has it. -/
def assignIn (name : String) (v : Value) : List Scope → Option (List Scope)
  | [] => none
  | scope :: outer =>
    if scope.contains name then some (scope.replace name v :: outer)
    else (assignIn name v outer).map (scope :: ·)

/-- Change a name in the innermost scope that has it; none if no scope does. -/
def assign? (env : Environment) (name : String) (v : Value) : Option Environment :=
  match assignIn name v env.inner with
  | some inner => some { env with inner }
  | none =>
    if env.globals.contains name then some { env with globals := env.globals.replace name v }
    else none

/-! ## What the operations do to depth and look-up -/

@[simp] theorem depth_define (env : Environment) (name : String) (v : Value) :
    (env.define name v).depth = env.depth := by
  unfold define
  split
  · rfl
  · next h => simp [depth, h]

/-- After a definition the name has its new value, and every other name keeps its own. -/
theorem lookup_define (env : Environment) (name other : String) (v : Value) :
    (env.define name v).lookup other = if other = name then some v else env.lookup other := by
  obtain ⟨inner, globals⟩ := env
  cases inner with
  | nil => by_cases h : other = name <;> simp [define, lookup, scopes, Scope.get?_insert, h]
  | cons scope outer =>
    by_cases h : other = name <;>
      simp [define, lookup, scopes, List.findSome?_cons, Scope.get?_insert, h]

theorem assignIn_eq_none_iff {name : String} {v : Value} {scopes : List Scope} :
    assignIn name v scopes = none ↔ scopes.findSome? (fun s => s.get? name) = none := by
  induction scopes with
  | nil => simp [assignIn]
  | cons scope outer ih =>
    rw [assignIn, List.findSome?_cons]
    by_cases h : scope.contains name = true
    · obtain ⟨w, hw⟩ := Option.isSome_iff_exists.mp
        (Scope.get?_isSome_iff.mpr (Scope.contains_iff.mp h))
      simp [h, hw]
    · have hn := Scope.get?_eq_none_iff.mpr fun hc => h (Scope.contains_iff.mpr hc)
      simp [h, hn, ih]

/-- An assignment fails exactly where a look-up does. -/
theorem assign?_eq_none_iff {env : Environment} {name : String} {v : Value} :
    env.assign? name v = none ↔ env.lookup name = none := by
  unfold assign? lookup scopes
  rw [List.findSome?_append]
  split
  · next inner h =>
    have hne : env.inner.findSome? (fun s => s.get? name) ≠ none := fun hn => by
      rw [assignIn_eq_none_iff.mpr hn] at h
      cases h
    simp [hne]
  · next h =>
    rw [assignIn_eq_none_iff.mp h]
    by_cases hg : env.globals.contains name = true
    · obtain ⟨w, hw⟩ := Option.isSome_iff_exists.mp
        (Scope.get?_isSome_iff.mpr (Scope.contains_iff.mp hg))
      simp [hg, hw]
    · have hn := Scope.get?_eq_none_iff.mpr fun hc => hg (Scope.contains_iff.mpr hc)
      simp [hg, hn]

theorem findSome?_assignIn {name : String} {v : Value} {scopes after : List Scope}
    (h : assignIn name v scopes = some after) (other : String) :
    after.findSome? (fun s => s.get? other) =
      if other = name then some v else scopes.findSome? fun s => s.get? other := by
  induction scopes generalizing after with
  | nil => cases h
  | cons scope outer ih =>
    rw [assignIn] at h
    split at h
    · next hc =>
      cases h
      obtain ⟨w, hw⟩ := Option.isSome_iff_exists.mp
        (Scope.get?_isSome_iff.mpr (Scope.contains_iff.mp hc))
      by_cases ho : other = name <;>
        simp [List.findSome?_cons, Scope.get?_replace, ho, hw]
    · next hc =>
      have hn := Scope.get?_eq_none_iff.mpr fun hm => hc (Scope.contains_iff.mpr hm)
      obtain ⟨rest, hr, rfl⟩ := Option.map_eq_some_iff.mp h
      rw [List.findSome?_cons, List.findSome?_cons, ih hr]
      by_cases ho : other = name
      · subst ho
        simp [hn]
      · simp [ho]

/-- After an assignment the name has its new value, and every other name keeps its own. -/
theorem lookup_of_assign? {env after : Environment} {name : String} {v : Value}
    (h : env.assign? name v = some after) (other : String) :
    after.lookup other = if other = name then some v else env.lookup other := by
  unfold assign? at h
  unfold lookup scopes
  split at h
  · next inner hi =>
    cases h
    rw [List.findSome?_append, List.findSome?_append, findSome?_assignIn hi]
    by_cases ho : other = name <;> simp [ho]
  · next hi =>
    have hn := assignIn_eq_none_iff.mp hi
    split at h
    · next hg =>
      cases h
      obtain ⟨w, hw⟩ := Option.isSome_iff_exists.mp
        (Scope.get?_isSome_iff.mpr (Scope.contains_iff.mp hg))
      rw [List.findSome?_append, List.findSome?_append]
      by_cases ho : other = name
      · subst ho
        simp [hn, hw, Scope.get?_replace]
      · simp [ho, Scope.get?_replace]
    · cases h

end Environment

end Respell
