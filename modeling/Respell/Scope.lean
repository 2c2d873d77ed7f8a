-- SUMMARY: The bindings of one scope, in the order of their definition.
import Respell.Value

/-!
# Scopes

A scope binds names to values. It lists its names in the order in which they were first defined,
and each of them once, which is part of the type.
-/

namespace Respell

/-- Names with their values; no name occurs twice. -/
structure Scope where
  entries : List (String × Value)
  nodup : (entries.map Prod.fst).Nodup

namespace Scope

/-- The scope that binds nothing. -/
def empty : Scope :=
  ⟨[], List.nodup_nil⟩

instance : Inhabited Scope := ⟨empty⟩

/-- The names of a scope. -/
def names (s : Scope) : List String :=
  s.entries.map Prod.fst

/-- The value of a name. -/
def get? (s : Scope) (name : String) : Option Value :=
  s.entries.lookup name

/-- Whether a name is bound. -/
def contains (s : Scope) (name : String) : Bool :=
  s.names.contains name

/-- The entries with a new value for `name`. -/
def replaceIn (name : String) (v : Value) (entries : List (String × Value)) :
    List (String × Value) :=
  entries.map fun e => if e.1 = name then (name, v) else e

theorem replaceIn_names (name : String) (v : Value) (entries : List (String × Value)) :
    (replaceIn name v entries).map Prod.fst = entries.map Prod.fst := by
  induction entries with
  | nil => rfl
  | cons e es ih =>
    by_cases h : e.1 = name
    · simpa [replaceIn, h] using ih
    · simpa [replaceIn, h] using ih

/-- Change the value of a name, where it is bound. -/
def replace (s : Scope) (name : String) (v : Value) : Scope :=
  ⟨replaceIn name v s.entries, by rw [replaceIn_names]; exact s.nodup⟩

/-- Bind a name: at its place if it is bound, and after all the others if it is not. -/
def insert (s : Scope) (name : String) (v : Value) : Scope :=
  if h : s.contains name = true then s.replace name v
  else
    ⟨s.entries ++ [(name, v)], by
      rw [List.map_append, List.nodup_append]
      refine ⟨s.nodup, by simp, ?_⟩
      intro a ha b hb hab
      have hb' : b = name := by simpa using hb
      exact h (by simp only [contains, names]; simpa [← hb', ← hab] using ha)⟩

/-- How many names are bound. -/
def size (s : Scope) : Nat :=
  s.entries.length

/-! ## What the operations do to names and values -/

@[simp] theorem replace_names (s : Scope) (name : String) (v : Value) :
    (s.replace name v).names = s.names :=
  replaceIn_names name v s.entries

@[simp] theorem contains_iff {s : Scope} {name : String} :
    s.contains name = true ↔ name ∈ s.names := by
  simp [contains]

theorem insert_names (s : Scope) (name : String) (v : Value) :
    (s.insert name v).names = if name ∈ s.names then s.names else s.names ++ [name] := by
  by_cases h : name ∈ s.names
  · rw [insert, dif_pos (contains_iff.mpr h), replace_names, if_pos h]
  · rw [insert, dif_neg (fun hc => h (contains_iff.mp hc)), if_neg h]
    simp [names]

@[simp] theorem get?_empty (name : String) : empty.get? name = none := rfl

theorem lookup_cons_ite (name k : String) (v : Value) (entries : List (String × Value)) :
    ((k, v) :: entries).lookup name = if name = k then some v else entries.lookup name := by
  by_cases h : name = k
  · simp [h]
  · rw [List.lookup_cons, beq_false_of_ne h, if_neg h]

/-- The names with a value are those that are listed. -/
theorem get?_isSome_iff {s : Scope} {name : String} :
    (s.get? name).isSome = true ↔ name ∈ s.names := by
  obtain ⟨entries, nodup⟩ := s
  simp only [get?, names]
  clear nodup
  induction entries with
  | nil => simp
  | cons e es ih =>
    rw [lookup_cons_ite]
    by_cases h : name = e.1 <;> simp [h, ih]

theorem get?_eq_none_iff {s : Scope} {name : String} : s.get? name = none ↔ name ∉ s.names := by
  rw [← get?_isSome_iff]
  simp

/-- The value of a name is the one that is listed with it. -/
theorem get?_eq_some_iff {s : Scope} {name : String} {v : Value} :
    s.get? name = some v ↔ (name, v) ∈ s.entries := by
  obtain ⟨entries, nodup⟩ := s
  simp only [get?]
  induction entries with
  | nil => simp
  | cons e es ih =>
    obtain ⟨k, w⟩ := e
    rw [List.map_cons, List.nodup_cons] at nodup
    rw [lookup_cons_ite, List.mem_cons, Prod.mk.injEq]
    by_cases h : name = k
    · subst h
      have hnot : (name, v) ∉ es := fun hv =>
        nodup.1 (List.mem_map.mpr ⟨_, hv, rfl⟩)
      simp [hnot, eq_comm]
    · simp [h, ih nodup.2]

theorem lookup_replaceIn (name other : String) (v : Value) (entries : List (String × Value)) :
    (replaceIn name v entries).lookup other =
      if other = name then (entries.lookup name).map fun _ => v else entries.lookup other := by
  induction entries with
  | nil => simp [replaceIn]
  | cons e es ih =>
    obtain ⟨k, w⟩ := e
    simp only [replaceIn, List.map_cons] at ih ⊢
    by_cases hk : k = name
    · subst hk
      rw [if_pos rfl, lookup_cons_ite, lookup_cons_ite, lookup_cons_ite, ih]
      by_cases ho : other = k <;> simp [ho]
    · rw [if_neg hk, lookup_cons_ite, lookup_cons_ite, lookup_cons_ite, ih, if_neg (Ne.symm hk)]
      by_cases ho : other = k
      · simp [ho, hk]
      · simp [ho]

/-- A name that is replaced gets the new value, and every other name keeps its own. -/
theorem get?_replace (s : Scope) (name other : String) (v : Value) :
    (s.replace name v).get? other =
      if other = name then (s.get? name).map fun _ => v else s.get? other :=
  lookup_replaceIn name other v s.entries

/-- A name that is bound has the value it was bound to, and every other name keeps its own. -/
theorem get?_insert (s : Scope) (name other : String) (v : Value) :
    (s.insert name v).get? other = if other = name then some v else s.get? other := by
  by_cases h : name ∈ s.names
  · obtain ⟨w, hw⟩ := Option.isSome_iff_exists.mp (get?_isSome_iff.mpr h)
    rw [insert, dif_pos (contains_iff.mpr h), get?_replace, hw]
    rfl
  · have hn := get?_eq_none_iff.mpr h
    rw [insert, dif_neg (fun hc => h (contains_iff.mp hc))]
    simp only [get?] at hn ⊢
    rw [List.lookup_append]
    by_cases ho : other = name
    · subst ho
      simp [hn]
    · rw [lookup_cons_ite, if_neg ho, if_neg ho]
      simp

end Scope

end Respell
