-- SUMMARY: A program whose names are changed one for one runs as before.
import Mathlib.Data.List.Forall2
import Mathlib.Data.Set.Function
import Respell.Proofs.Running.Simulation

/-!
# Renaming

An environment is renamed by changing the names of its scopes and nothing else. As long as different
names of the program stay different, the renamed environment finds every name where the first one
does, so that the renamed program simulates the program.
-/

namespace Respell

/-! ## Scopes -/

/-- The second scope is the first with its names, which are all in `N`, changed by `f`. -/
structure Scope.Renamed (N : Set String) (f : String → String) (s s' : Scope) : Prop where
  entries : s'.entries = s.entries.map (Prod.map f id)
  names : ∀ x ∈ s.names, x ∈ N

namespace Scope.Renamed

variable {N : Set String} {f : String → String} {s s' : Scope} {x : String}

theorem empty : Renamed N f .empty .empty :=
  ⟨rfl, nofun⟩

theorem get? (hf : N.InjOn f) (h : Renamed N f s s') (hx : x ∈ N) : s'.get? (f x) = s.get? x := by
  obtain ⟨entries, nodup⟩ := s
  have hnames := h.names
  simp only [Scope.get?, h.entries, Scope.names] at hnames ⊢
  clear h nodup
  induction entries with
  | nil => rfl
  | cons e entries ih =>
    obtain ⟨y, v⟩ := e
    obtain ⟨hy, hnames⟩ := List.forall_mem_cons.mp hnames
    simp only [List.map_cons, Prod.map_apply, lookup_cons_ite, hf.eq_iff hx hy, ih hnames, id]

theorem contains (hf : N.InjOn f) (h : Renamed N f s s') (hx : x ∈ N) :
    s'.contains (f x) = s.contains x := by
  rw [Bool.eq_iff_iff, contains_iff, contains_iff, ← get?_isSome_iff, ← get?_isSome_iff,
    h.get? hf hx]

theorem replace (hf : N.InjOn f) (h : Renamed N f s s') (hx : x ∈ N) (v : Value) :
    Renamed N f (s.replace x v) (s'.replace (f x) v) := by
  refine ⟨?_, fun y hy => h.names y (by rwa [replace_names] at hy)⟩
  simp only [Scope.replace, replaceIn, h.entries, List.map_map]
  refine List.map_congr_left fun e he => ?_
  have hy : e.1 ∈ N := h.names e.1 (List.mem_map_of_mem he)
  by_cases hex : e.1 = x
  · simp [hex]
  · have hne : f e.1 ≠ f x := fun hfe => hex (hf hy hx hfe)
    simp [hex, hne]

theorem insert (hf : N.InjOn f) (h : Renamed N f s s') (hx : x ∈ N) (v : Value) :
    Renamed N f (s.insert x v) (s'.insert (f x) v) := by
  have hcontains := h.contains hf hx
  by_cases hs : s.contains x = true
  · rw [hs] at hcontains
    rw [Scope.insert, Scope.insert, dif_pos hs, dif_pos hcontains]
    exact h.replace hf hx v
  · rw [← hcontains] at hs
    refine ⟨?_, fun y hy => ?_⟩
    · rw [Scope.insert, Scope.insert, dif_neg hs, dif_neg (hcontains ▸ hs)]
      simp [h.entries]
    · rw [insert_names] at hy
      split at hy
      · exact h.names y hy
      · rcases List.mem_append.mp hy with hy | hy
        · exact h.names y hy
        · exact List.mem_singleton.mp hy ▸ hx

end Scope.Renamed

/-! ## Environments -/

/-- The second environment is the first with its names, which are all in `N`, changed by `f`. -/
structure Environment.Renamed (N : Set String) (f : String → String) (a b : Environment) :
    Prop where
  inner : List.Forall₂ (Scope.Renamed N f) a.inner b.inner
  globals : a.globals.Renamed N f b.globals

namespace Environment.Renamed

variable {N : Set String} {f : String → String} {a b : Environment} {x : String}

theorem lookup (hf : N.InjOn f) (h : Renamed N f a b) (hx : x ∈ N) :
    b.lookup (f x) = a.lookup x := by
  have hfind : ∀ {ss ss' : List Scope}, List.Forall₂ (Scope.Renamed N f) ss ss' →
      ss'.findSome? (·.get? (f x)) = ss.findSome? (·.get? x) := by
    intro ss ss' hss
    induction hss with
    | nil => rfl
    | cons hs _ ih => rw [List.findSome?_cons, List.findSome?_cons, hs.get? hf hx, ih]
  unfold Environment.lookup scopes
  rw [List.findSome?_append, List.findSome?_append, hfind h.inner, hfind (.cons h.globals .nil)]

theorem assignIn {ss ss' : List Scope} (hf : N.InjOn f)
    (h : List.Forall₂ (Scope.Renamed N f) ss ss') (hx : x ∈ N) (v : Value) :
    Option.Rel (List.Forall₂ (Scope.Renamed N f)) (assignIn x v ss)
      (Environment.assignIn (f x) v ss') := by
  induction h with
  | nil => exact .none
  | @cons s s' ss ss' hs hss ih =>
    rw [Environment.assignIn, Environment.assignIn, hs.contains hf hx]
    split
    · exact .some (.cons (hs.replace hf hx v) hss)
    · generalize Environment.assignIn x v ss = r, Environment.assignIn (f x) v ss' = r' at ih
      cases ih with
      | none => exact .none
      | some hrest => exact .some (.cons hs hrest)

theorem assign {a' b' : Environment} {v : Value} (hf : N.InjOn f) (h : Renamed N f a b)
    (hx : x ∈ N) (ha : a.assign? x v = some a') (hb : b.assign? (f x) v = some b') :
    Renamed N f a' b' := by
  have hinner := assignIn hf h.inner hx v
  unfold assign? at ha hb
  generalize Environment.assignIn x v a.inner = r, Environment.assignIn (f x) v b.inner = r'
    at hinner ha hb
  cases hinner with
  | some hscopes =>
    cases ha
    cases hb
    exact ⟨hscopes, h.globals⟩
  | none =>
    simp only [Option.ite_none_right_eq_some, Option.some.injEq] at ha hb
    obtain ⟨-, rfl⟩ := ha
    obtain ⟨-, rfl⟩ := hb
    exact ⟨h.inner, h.globals.replace hf hx v⟩

theorem define (hf : N.InjOn f) (h : Renamed N f a b) (hx : x ∈ N) (v : Value) :
    Renamed N f (a.define x v) (b.define (f x) v) := by
  obtain ⟨inner, globals⟩ := a
  obtain ⟨inner', globals'⟩ := b
  obtain ⟨hinner, hglobals⟩ := h
  cases hinner with
  | nil => exact ⟨.nil, hglobals.insert hf hx v⟩
  | cons hs hss => exact ⟨.cons (hs.insert hf hx v) hss, hglobals⟩

theorem pop (h : Renamed N f a b) : Renamed N f a.pop b.pop := by
  obtain ⟨inner, globals⟩ := a
  obtain ⟨inner', globals'⟩ := b
  obtain ⟨hinner, hglobals⟩ := h
  cases hinner with
  | nil => exact ⟨.nil, hglobals⟩
  | cons _ hss => exact ⟨hss, hglobals⟩

end Environment.Renamed

/-- Renaming one for one is a simulation. -/
theorem simulation_renamed {N : Set String} {f : String → String} (hf : N.InjOn f) :
    Simulation (· ∈ N) f 0 (fun _ => Environment.Renamed N f) where
  base_le := Nat.zero_le 1
  lookup := fun h hx => h.lookup hf hx
  assign := fun h hx ha hb => h.assign hf hx ha hb
  define := fun v _ h hx => h.define hf hx v
  push := fun h => ⟨.cons .empty h.inner, h.globals⟩
  pop := fun h => h.pop

/-- A program and the program with other labels run alike from the start. -/
theorem Machine.run_relabel {ℓ : Labels} {N : Set String} (hℓ : N.InjOn ℓ.name) (steps : Nat)
    (p : Program) (hp : ∀ x ∈ Stmt.namesAll p.statements, x ∈ N) :
    (start.run steps p).Follows ℓ (Environment.Renamed N ℓ.name)
      (start.run steps (p.relabel ℓ)) := by
  have hstart : start.Alike (Environment.Renamed N ℓ.name) start := ⟨⟨.nil, .empty⟩, rfl⟩
  exact (simulation_renamed hℓ).execAll steps p.statements .null (Nat.zero_le 0) hstart hp

end Respell
