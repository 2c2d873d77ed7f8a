-- SUMMARY: A relabelled program runs like the program itself, from environments that match.
import Respell.Proofs.Relabelling

/-!
# Simulation

Two environments match if every name of a program has the same value in both, once it is relabelled
for the second. A `Simulation` is a relation that says so and that is kept by all that a run can do
to its environment. Then the relabelled program goes from the second environment as the program goes
from the first, step by step: the same prints and values, and the relabelled errors.
-/

namespace Respell

/-- Pairs of matching environments. `R n` is about environments in which `n` scopes have been opened
    since they were first compared; names may be defined from level `base` on. Only the names `N`
    matter, and the second environment has `f x` for `x`. -/
structure Simulation (N : String → Prop) (f : String → String) (base : Nat)
    (R : Nat → Environment → Environment → Prop) : Prop where
  base_le : base ≤ 1
  lookup : ∀ {n a b x}, R n a b → N x → b.lookup (f x) = a.lookup x
  assign : ∀ {n a b a' b' x v}, R n a b → N x → a.assign? x v = some a' →
    b.assign? (f x) v = some b' → R n a' b'
  define : ∀ {n a b x} v, base ≤ n → R n a b → N x → R n (a.define x v) (b.define (f x) v)
  push : ∀ {n a b}, R n a b → R (n + 1) a.push b.push
  pop : ∀ {n a b}, R (n + 1) a b → R n a.pop b.pop

/-! ## States and runs that match -/

/-- The environments match, and the same has been printed. -/
structure Machine.Alike (E : Environment → Environment → Prop) (m m' : Machine) : Prop where
  env : E m.env m'.env
  printed : m'.printed = m.printed

/-- The second run goes like the first, but for the labels of an error. -/
inductive Run.Follows (ℓ : Labels) (E : Environment → Environment → Prop) : Run → Run → Prop where
  | done {m m' : Machine} (v : Value) : m.Alike E m' → Follows ℓ E (.done v m) (.done v m')
  | failed {m m' : Machine} (e : RuntimeError) : m.Alike E m' →
      Follows ℓ E (.failed e m) (.failed (e.relabel ℓ) m')
  | cut {m m' : Machine} : m.Alike E m' → Follows ℓ E (.cut m) (.cut m')

namespace Run.Follows

variable {ℓ : Labels} {E E' : Environment → Environment → Prop} {r r' : Run}

theorem andThen {next next' : Value → Machine → Run} (h : r.Follows ℓ E r')
    (hnext : ∀ v m m', m.Alike E m' → (next v m).Follows ℓ E (next' v m')) :
    (r.andThen next).Follows ℓ E (r'.andThen next') := by
  cases h with
  | done v hm => exact hnext v _ _ hm
  | failed e hm => exact .failed e hm
  | cut hm => exact .cut hm

theorem mapState {f f' : Machine → Machine} (h : r.Follows ℓ E r')
    (hf : ∀ m m', m.Alike E m' → (f m).Alike E' (f' m')) :
    (r.mapState f).Follows ℓ E' (r'.mapState f') := by
  cases h with
  | done v hm => exact .done v (hf _ _ hm)
  | failed e hm => exact .failed e (hf _ _ hm)
  | cut hm => exact .cut (hf _ _ hm)

end Run.Follows

namespace Simulation

variable {N : String → Prop} {ℓ : Labels} {base : Nat} {R : Nat → Environment → Environment → Prop}
  {n : Nat}

/-! ## Expressions -/

/-- The value of the relabelled expression is the value of the expression, and an error is
    relabelled. -/
theorem eval_expr (S : Simulation N ℓ.name base R) {a b : Environment} {e : Expr} (h : R n a b)
    (hN : ∀ x ∈ e.names, N x) :
    ((e.relabel ℓ).eval b).1 = (e.eval a).1.mapError (RuntimeError.relabel ℓ) ∧
      R n (e.eval a).2 ((e.relabel ℓ).eval b).2 := by
  induction e generalizing a b with
  | number x s => exact ⟨rfl, h⟩
  | text t s => exact ⟨rfl, h⟩
  | bool v s => exact ⟨rfl, h⟩
  | name x s =>
    have hl := S.lookup h (hN x (by simp [Expr.names]))
    rw [Expr.relabel, Expr.eval, Expr.eval, hl]
    cases a.lookup x <;> exact ⟨rfl, h⟩
  | assign x value s ih =>
    have hx : N x := hN x (by simp [Expr.names])
    have hv := ih h fun y hy => hN y (by simp [Expr.names, hy])
    rw [Expr.relabel, Expr.eval, Expr.eval]
    generalize value.eval a = r, (value.relabel ℓ).eval b = r' at hv
    obtain ⟨⟨err | v, a'⟩, o', b'⟩ := r, r'
    · obtain ⟨rfl, hR⟩ := hv
      exact ⟨rfl, hR⟩
    · obtain ⟨rfl, hR⟩ := hv
      have hl := S.lookup hR hx
      dsimp only [Except.mapError]
      cases ha : a'.assign? x v with
      | none =>
        have hb : b'.assign? (ℓ.name x) v = none := by
          rw [Environment.assign?_eq_none_iff, hl]
          exact Environment.assign?_eq_none_iff.mp ha
        rw [hb]
        exact ⟨rfl, hR⟩
      | some a'' =>
        cases hb : b'.assign? (ℓ.name x) v with
        | none =>
          rw [Environment.assign?_eq_none_iff, hl, ← Environment.assign?_eq_none_iff (v := v),
            ha] at hb
          cases hb
        | some b'' => exact ⟨rfl, S.assign hR hx ha hb⟩
  | binary op left right s ihl ihr =>
    have hl := ihl h fun y hy => hN y (by simp [Expr.names, hy])
    rw [Expr.relabel, Expr.eval, Expr.eval]
    generalize left.eval a = r, (left.relabel ℓ).eval b = r' at hl
    obtain ⟨⟨err | v, a'⟩, o', b'⟩ := r, r'
    · obtain ⟨rfl, hR⟩ := hl
      exact ⟨rfl, hR⟩
    · obtain ⟨rfl, hR⟩ := hl
      have hr := ihr hR fun y hy => hN y (by simp [Expr.names, hy])
      dsimp only [Except.mapError]
      split
      · exact ⟨rfl, hR⟩
      · split
        · exact ⟨rfl, hR⟩
        · generalize right.eval a' = r, (right.relabel ℓ).eval b' = r' at hr
          obtain ⟨⟨err | w, a''⟩, o'', b''⟩ := r, r'
          · obtain ⟨rfl, hR'⟩ := hr
            exact ⟨rfl, hR'⟩
          · obtain ⟨rfl, hR'⟩ := hr
            refine ⟨?_, hR'⟩
            rw [Expr.span_relabel]
            exact op.apply_relabel ℓ v w s right.span
  | unary op operand s ih =>
    have ho := ih h hN
    rw [Expr.relabel, Expr.eval, Expr.eval]
    generalize operand.eval a = r, (operand.relabel ℓ).eval b = r' at ho
    obtain ⟨⟨err | v, a'⟩, o', b'⟩ := r, r'
    · obtain ⟨rfl, hR⟩ := ho
      exact ⟨rfl, hR⟩
    · obtain ⟨rfl, hR⟩ := ho
      exact ⟨op.apply_relabel ℓ v s, hR⟩

variable {m m' : Machine}

theorem eval (S : Simulation N ℓ.name base R) {e : Expr} (h : m.Alike (R n) m')
    (hN : ∀ x ∈ e.names, N x) : (m.eval e).Follows ℓ (R n) (m'.eval (e.relabel ℓ)) := by
  have hv := S.eval_expr h.env hN
  unfold Machine.eval
  generalize e.eval m.env = r, (e.relabel ℓ).eval m'.env = r' at hv
  obtain ⟨⟨err | v, a⟩, o', b⟩ := r, r'
  · obtain ⟨rfl, hR⟩ := hv
    exact .failed err ⟨hR, h.printed⟩
  · obtain ⟨rfl, hR⟩ := hv
    exact .done v ⟨hR, h.printed⟩

theorem eval? (S : Simulation N ℓ.name base R) {e : Option Expr} (h : m.Alike (R n) m')
    (hN : ∀ x ∈ namesOf e, N x) :
    (m.eval? e).Follows ℓ (R n) (m'.eval? (e.map (Expr.relabel ℓ))) := by
  cases e with
  | none => exact .done .null h
  | some e => exact S.eval h hN

/-! ## Statements -/

theorem defineName (S : Simulation N ℓ.name base R) {b : Binding} (hn : base ≤ n)
    (h : m.Alike (R n) m') (hN : ∀ x ∈ b.names, N x) :
    (m.define b).Follows ℓ (R n) (m'.define (b.relabel ℓ)) := by
  refine (S.eval h fun x hx => hN x (List.mem_cons_of_mem _ hx)).andThen fun v m m' hm => ?_
  exact .done v ⟨S.define v hn hm.env (hN b.name List.mem_cons_self), hm.printed⟩

theorem init (S : Simulation N ℓ.name base R) {i : Option Init} (hn : base ≤ n)
    (h : m.Alike (R n) m') (hN : ∀ x ∈ Init.names i, N x) :
    (m.init i).Follows ℓ (R n) (m'.init (i.map (Init.relabel ℓ))) := by
  match i with
  | some (.define b) => exact S.defineName hn h hN
  | some (.expr e) => exact S.eval h hN
  | none => exact .done .null h

theorem inScope (S : Simulation N ℓ.name base R) {body body' : Machine → Run}
    (h : m.Alike (R n) m')
    (hbody : ∀ m m', m.Alike (R (n + 1)) m' → (body m).Follows ℓ (R (n + 1)) (body' m')) :
    (m.inScope body).Follows ℓ (R n) (m'.inScope body') := by
  have hopen : Machine.Alike (R (n + 1)) { m with env := m.env.push }
      { m' with env := m'.env.push } := ⟨S.push h.env, h.printed⟩
  exact (hbody _ _ hopen).mapState fun m m' hm => ⟨S.pop hm.env, hm.printed⟩

-- By recursion on the steps, both runs side by side. A block opens a scope, so its statements run
-- at a level where names may be defined whatever the level outside is.
mutual

theorem exec (S : Simulation N ℓ.name base R) (steps : Nat) (s : Stmt) {n : Nat} {m m' : Machine}
    (hn : base ≤ n) (h : m.Alike (R n) m') (hN : ∀ x ∈ s.names, N x) :
    (Machine.exec steps s m).Follows ℓ (R n) (Machine.exec steps (s.relabel ℓ) m') := by
  match steps, s with
  | 0, _ => exact .cut h
  | steps + 1, .define b => exact S.defineName hn h hN
  | steps + 1, .print e =>
    refine (S.eval h hN).andThen fun v m m' hm => .done .null ⟨hm.env, ?_⟩
    simp only [Machine.print, hm.printed]
  | steps + 1, .block b => exact execBlock S steps b h hN
  | steps + 1, .branch c b o => exact execBranch S steps c b o h hN
  | steps + 1, .whileLoop c b => exact execWhile S steps c b .null h hN
  | steps + 1, .forLoop i c k b =>
    simp only [Stmt.relabel, Machine.exec]
    simp only [Stmt.names, List.append_assoc, List.forall_mem_append] at hN
    refine S.inScope h fun m m' hm => ?_
    refine (S.init (Nat.le_trans S.base_le (by omega)) hm hN.1).andThen fun _ m m' hm => ?_
    refine execFor S steps c k b .null hm ?_
    simpa only [List.append_assoc, List.forall_mem_append] using hN.2
  | steps + 1, .expr e => exact S.eval h hN

theorem execAll (S : Simulation N ℓ.name base R) (steps : Nat) (ss : List Stmt) (last : Value)
    {n : Nat} {m m' : Machine} (hn : base ≤ n) (h : m.Alike (R n) m')
    (hN : ∀ x ∈ Stmt.namesAll ss, N x) :
    (Machine.execAll steps ss last m).Follows ℓ (R n)
      (Machine.execAll steps (Stmt.relabelAll ℓ ss) last m') := by
  match steps, ss with
  | 0, _ => exact .cut h
  | steps + 1, [] => exact .done last h
  | steps + 1, s :: ss =>
    simp only [Stmt.namesAll, List.forall_mem_append] at hN
    refine (exec S steps s hn h hN.1).andThen fun v m m' hm => ?_
    exact execAll S steps ss v hn hm hN.2

theorem execBlock (S : Simulation N ℓ.name base R) (steps : Nat) (b : Block) {n : Nat}
    {m m' : Machine} (h : m.Alike (R n) m') (hN : ∀ x ∈ b.names, N x) :
    (Machine.execBlock steps b m).Follows ℓ (R n) (Machine.execBlock steps (b.relabel ℓ) m') := by
  match steps, b with
  | 0, _ => exact .cut h
  | steps + 1, .mk ss span =>
    refine S.inScope h fun m m' hm => ?_
    exact execAll S steps ss .null (Nat.le_trans S.base_le (by omega)) hm hN

theorem execBranch (S : Simulation N ℓ.name base R) (steps : Nat) (c : Expr) (b : Block)
    (o : Otherwise) {n : Nat} {m m' : Machine} (h : m.Alike (R n) m')
    (hN : ∀ x ∈ c.names ++ b.names ++ o.names, N x) :
    (Machine.execBranch steps c b o m).Follows ℓ (R n)
      (Machine.execBranch steps (c.relabel ℓ) (b.relabel ℓ) (o.relabel ℓ) m') := by
  simp only [List.forall_mem_append] at hN
  match steps with
  | 0 => exact .cut h
  | steps + 1 =>
    refine (S.eval h hN.1.1).andThen fun v m m' hm => ?_
    cases v.truthy with
    | true => exact execBlock S steps b hm hN.1.2
    | false =>
      match o with
      | .nothing => exact .done .null hm
      | .block b => exact execBlock S steps b hm hN.2
      | .branch c b o => exact execBranch S steps c b o hm hN.2

theorem execWhile (S : Simulation N ℓ.name base R) (steps : Nat) (c : Expr) (b : Block)
    (last : Value) {n : Nat} {m m' : Machine} (h : m.Alike (R n) m')
    (hN : ∀ x ∈ c.names ++ b.names, N x) :
    (Machine.execWhile steps c b last m).Follows ℓ (R n)
      (Machine.execWhile steps (c.relabel ℓ) (b.relabel ℓ) last m') := by
  have hN' := hN
  simp only [List.forall_mem_append] at hN'
  match steps with
  | 0 => exact .cut h
  | steps + 1 =>
    refine (S.eval h hN'.1).andThen fun v m m' hm => ?_
    cases v.truthy with
    | true =>
      refine (execBlock S steps b hm hN'.2).andThen fun v m m' hm => ?_
      exact execWhile S steps c b v hm hN
    | false => exact .done last hm

theorem execFor (S : Simulation N ℓ.name base R) (steps : Nat) (c k : Option Expr) (b : Block)
    (last : Value) {n : Nat} {m m' : Machine} (h : m.Alike (R n) m')
    (hN : ∀ x ∈ namesOf c ++ namesOf k ++ b.names, N x) :
    (Machine.execFor steps c k b last m).Follows ℓ (R n)
      (Machine.execFor steps (c.map (Expr.relabel ℓ)) (k.map (Expr.relabel ℓ)) (b.relabel ℓ) last
        m') := by
  have hN' := hN
  simp only [List.forall_mem_append] at hN'
  match steps with
  | 0 => exact .cut h
  | steps + 1 =>
    refine (S.eval? h hN'.1.1).andThen fun v m m' hm => ?_
    have hholds : Machine.holds (c.map (Expr.relabel ℓ)) v = Machine.holds c v := by
      simp [Machine.holds]
    rw [hholds]
    cases Machine.holds c v with
    | true =>
      refine (execBlock S steps b hm hN'.2).andThen fun v m m' hm => ?_
      refine (S.eval? hm hN'.1.2).andThen fun _ m m' hm => ?_
      exact execFor S steps c k b v hm hN
    | false => exact .done last hm

end

end Simulation

end Respell
