-- SUMMARY: Every error of a run points at an expression of the program.
import Respell.Eval
import Respell.Proofs.Nodes

/-!
# What a runtime error points at

An error arises where one expression is evaluated, and carries the span of that expression or, for a
division, of its divisor. `PointsAt` says which expressions these can be. It holds of every error of
an expression with respect to the nodes of the expression, and a run passes errors on unchanged.
-/

namespace Respell

/-- The operators that do not take all operands. -/
def BinaryOp.selective : List BinaryOp :=
  [.add, .sub, .mul, .div, .less, .greater]

/-- The signs that do not take all operands. -/
def UnaryOp.selective : List UnaryOp :=
  [.plus, .negate]

/-- Among the expressions stands one that an error of this kind arises from, at the span of the
    error. -/
def RuntimeError.PointsAt (nodes : List Expr) : RuntimeError → Prop
  | .undefinedVariable x s => .name x s ∈ nodes ∨ ∃ value, .assign x value s ∈ nodes
  | .divisionByZero s =>
    ∃ left right whole, .binary .div left right whole ∈ nodes ∧ right ∈ nodes ∧ right.span = s
  | .typeError _ s =>
    (∃ op ∈ BinaryOp.selective, ∃ left right, .binary op left right s ∈ nodes) ∨
      ∃ op ∈ UnaryOp.selective, ∃ operand, .unary op operand s ∈ nodes

namespace RuntimeError.PointsAt

variable {nodes nodes' : List Expr} {err : RuntimeError}

theorem mono (h : err.PointsAt nodes) (hsub : nodes ⊆ nodes') : err.PointsAt nodes' := by
  cases err with
  | undefinedVariable x s =>
    exact h.imp (fun hname => hsub hname) fun ⟨value, hassign⟩ => ⟨value, hsub hassign⟩
  | divisionByZero s =>
    obtain ⟨left, right, whole, hdiv, hright, hs⟩ := h
    exact ⟨left, right, whole, hsub hdiv, hsub hright, hs⟩
  | typeError mismatch s =>
    refine h.imp ?_ ?_
    · rintro ⟨op, hop, left, right, hbinary⟩
      exact ⟨op, hop, left, right, hsub hbinary⟩
    · rintro ⟨op, hop, operand, hunary⟩
      exact ⟨op, hop, operand, hsub hunary⟩

/-- Whatever an error points at has the span of the error. -/
theorem exists_span_eq (h : err.PointsAt nodes) : ∃ e ∈ nodes, e.span = err.span := by
  cases err with
  | undefinedVariable x s =>
    obtain hname | ⟨value, hassign⟩ := h
    · exact ⟨_, hname, rfl⟩
    · exact ⟨_, hassign, rfl⟩
  | divisionByZero s =>
    obtain ⟨left, right, whole, -, hright, hs⟩ := h
    exact ⟨right, hright, hs⟩
  | typeError mismatch s =>
    obtain ⟨op, -, left, right, hbinary⟩ | ⟨op, -, operand, hunary⟩ := h
    · exact ⟨_, hbinary, rfl⟩
    · exact ⟨_, hunary, rfl⟩

end RuntimeError.PointsAt

/-! ## Expressions -/

/-- An operation fails on operands that its operator does not take, and a division on zero. -/
theorem BinaryOp.apply_eq_error {op : BinaryOp} {a b : Value} {s divisor : Span}
    {err : RuntimeError} (h : op.apply a b s divisor = .error err) :
    (op ∈ selective ∧ ∃ mismatch, err = .typeError mismatch s) ∨
      (op = .div ∧ err = .divisionByZero divisor) := by
  cases op with
  | equal => cases h
  | notEqual => cases h
  | both => cases h
  | either => cases h
  | div =>
    simp only [apply] at h
    split at h
    · split at h
      · cases h
        exact .inr ⟨rfl, rfl⟩
      · cases h
    · cases h
      exact .inl ⟨by decide, _, rfl⟩
  | _ =>
    simp only [apply] at h
    split at h <;> cases h
    exact .inl ⟨by decide, _, rfl⟩

theorem UnaryOp.apply_eq_error {op : UnaryOp} {v : Value} {s : Span} {err : RuntimeError}
    (h : op.apply v s = .error err) :
    op ∈ selective ∧ ∃ mismatch, err = .typeError mismatch s := by
  cases op with
  | not => cases h
  | _ => cases v <;> cases h <;> exact ⟨by decide, _, rfl⟩

/-- An error of an expression points at a node of it. -/
theorem Expr.pointsAt_of_eval {e : Expr} {env after : Environment} {err : RuntimeError}
    (h : e.eval env = (.error err, after)) : err.PointsAt e.nodes := by
  have hself : ∀ e : Expr, e ∈ e.nodes := fun e => List.mem_cons_self
  induction e generalizing env after with
  | number x s => cases h
  | text t s => cases h
  | bool b s => cases h
  | name x s =>
    simp only [eval] at h
    split at h <;> cases h
    exact .inl (hself _)
  | assign x value s ih =>
    simp only [eval] at h
    split at h
    · next hvalue =>
      cases h
      exact (ih hvalue).mono (nodes_subset_of_child (by simp [children]))
    · split at h <;> cases h
      exact .inr ⟨value, hself _⟩
  | binary op left right s ihl ihr =>
    have hleft : left.nodes ⊆ (binary op left right s).nodes :=
      nodes_subset_of_child (by simp [children])
    have hright : right.nodes ⊆ (binary op left right s).nodes :=
      nodes_subset_of_child (by simp [children])
    simp only [eval] at h
    split at h
    · next hvalue =>
      cases h
      exact (ihl hvalue).mono hleft
    · split at h
      · cases h
      · split at h
        · cases h
        · split at h
          · next hvalue =>
            cases h
            exact (ihr hvalue).mono hright
          · obtain ⟨hop, mismatch, rfl⟩ | ⟨rfl, rfl⟩ :=
              BinaryOp.apply_eq_error (Prod.mk.inj h).1
            · exact .inl ⟨op, hop, left, right, hself _⟩
            · exact ⟨left, right, s, hself _, hright (hself right), rfl⟩
  | unary op operand s ih =>
    simp only [eval] at h
    split at h
    · next hvalue =>
      cases h
      exact (ih hvalue).mono (nodes_subset_of_child (by simp [children]))
    · obtain ⟨hop, mismatch, rfl⟩ := UnaryOp.apply_eq_error (Prod.mk.inj h).1
      exact .inr ⟨op, hop, operand, hself _⟩

/-! ## Runs -/

namespace Run

/-- If the run fails, its error points at one of the expressions. -/
def Blames (nodes : List Expr) : Run → Prop
  | .failed err _ => err.PointsAt nodes
  | _ => True

namespace Blames

variable {nodes nodes' : List Expr}

theorem mono {r : Run} (h : r.Blames nodes) (hsub : nodes ⊆ nodes') : r.Blames nodes' := by
  cases r with
  | done v m => trivial
  | failed err m => exact RuntimeError.PointsAt.mono h hsub
  | cut m => trivial

theorem andThen {r : Run} {next : Value → Machine → Run} (h : r.Blames nodes)
    (hnext : ∀ v m, (next v m).Blames nodes) : (r.andThen next).Blames nodes := by
  cases r with
  | done v m => exact hnext v m
  | failed err m => exact h
  | cut m => trivial

theorem mapState {r : Run} (f : Machine → Machine) (h : r.Blames nodes) :
    (r.mapState f).Blames nodes := by
  cases r with
  | done v m => trivial
  | failed err m => exact h
  | cut m => trivial

end Blames

end Run

namespace Machine

theorem eval_blames (m : Machine) (e : Expr) : (m.eval e).Blames e.nodes := by
  unfold eval
  split
  · trivial
  · next h => exact e.pointsAt_of_eval h

theorem eval?_blames (m : Machine) (e : Option Expr) : (m.eval? e).Blames (nodesOf e) := by
  cases e with
  | none => trivial
  | some e => exact m.eval_blames e

theorem define_blames (m : Machine) (b : Binding) : (m.define b).Blames b.value.nodes :=
  (m.eval_blames b.value).andThen fun _ _ => trivial

theorem init_blames (m : Machine) (i : Option Init) : (m.init i).Blames (Init.nodes i) := by
  match i with
  | some (.define b) => exact m.define_blames b
  | some (.expr e) => exact m.eval_blames e
  | none => trivial

theorem inScope_blames {nodes : List Expr} {body : Machine → Run} (m : Machine)
    (h : ∀ m, (body m).Blames nodes) : (m.inScope body).Blames nodes :=
  (h _).mapState _

-- By recursion on the steps, one theorem for each function of the mutual block.
mutual

theorem exec_blames (steps : Nat) (s : Stmt) (m : Machine) : (exec steps s m).Blames s.nodes := by
  match steps, s with
  | 0, _ => trivial
  | steps + 1, .define b => exact m.define_blames b
  | steps + 1, .print e => exact (m.eval_blames e).andThen fun _ _ => trivial
  | steps + 1, .block b => exact execBlock_blames steps b m
  | steps + 1, .branch c b o => exact execBranch_blames steps c b o m
  | steps + 1, .whileLoop c b => exact execWhile_blames steps c b .null m
  | steps + 1, .forLoop i c n b =>
    simp only [exec]
    refine m.inScope_blames fun m => ?_
    refine ((m.init_blames i).mono ?_).andThen fun _ m =>
      (execFor_blames steps c n b .null m).mono ?_
    · simp [Stmt.nodes]
    · simp [Stmt.nodes]
  | steps + 1, .expr e => exact m.eval_blames e

theorem execAll_blames (steps : Nat) (ss : List Stmt) (last : Value) (m : Machine) :
    (execAll steps ss last m).Blames (Stmt.nodesAll ss) := by
  match steps, ss with
  | 0, _ => trivial
  | steps + 1, [] => trivial
  | steps + 1, s :: ss =>
    refine ((exec_blames steps s m).mono (List.subset_append_left _ _)).andThen fun v m => ?_
    exact (execAll_blames steps ss v m).mono (List.subset_append_right _ _)

theorem execBlock_blames (steps : Nat) (b : Block) (m : Machine) :
    (execBlock steps b m).Blames b.nodes := by
  match steps, b with
  | 0, _ => trivial
  | steps + 1, .mk ss s => exact m.inScope_blames fun m => execAll_blames steps ss .null m

theorem execBranch_blames (steps : Nat) (c : Expr) (b : Block) (o : Otherwise) (m : Machine) :
    (execBranch steps c b o m).Blames (c.nodes ++ b.nodes ++ o.nodes) := by
  match steps with
  | 0 => trivial
  | steps + 1 =>
    refine ((m.eval_blames c).mono (by simp)).andThen fun v m => ?_
    split
    · exact (execBlock_blames steps b m).mono (by simp)
    · match o with
      | .nothing => trivial
      | .block b' => exact (execBlock_blames steps b' m).mono (List.subset_append_right _ _)
      | .branch c' b' o' =>
        exact (execBranch_blames steps c' b' o' m).mono (List.subset_append_right _ _)

theorem execWhile_blames (steps : Nat) (c : Expr) (b : Block) (last : Value) (m : Machine) :
    (execWhile steps c b last m).Blames (c.nodes ++ b.nodes) := by
  match steps with
  | 0 => trivial
  | steps + 1 =>
    refine ((m.eval_blames c).mono (by simp)).andThen fun v m => ?_
    split
    · refine ((execBlock_blames steps b m).mono (by simp)).andThen fun v m => ?_
      exact execWhile_blames steps c b v m
    · trivial

theorem execFor_blames (steps : Nat) (c n : Option Expr) (b : Block) (last : Value)
    (m : Machine) :
    (execFor steps c n b last m).Blames (nodesOf c ++ nodesOf n ++ b.nodes) := by
  match steps with
  | 0 => trivial
  | steps + 1 =>
    refine ((m.eval?_blames c).mono (by simp)).andThen fun v m => ?_
    split
    · refine ((execBlock_blames steps b m).mono (by simp)).andThen fun v m => ?_
      refine ((m.eval?_blames n).mono (by simp)).andThen fun _ m => ?_
      exact execFor_blames steps c n b v m
    · trivial

end

/-- An error of a program points at a node of it. -/
theorem run_blames (m : Machine) (steps : Nat) (p : Program) : (m.run steps p).Blames p.nodes :=
  execAll_blames steps p.statements .null m

end Machine

end Respell
