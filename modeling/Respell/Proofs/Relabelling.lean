-- SUMMARY: Trees and errors with other names and other spans.
import Respell.Eval

/-!
# Relabelling

The same tree may be written with other names and stand at other places of a text. Relabelling
changes the names and the spans of a tree and nothing else, and does the same to the errors that
name a variable or point at a place.
-/

namespace Respell

/-- What to put for each name and for each span. -/
structure Labels where
  name : String → String
  span : Span → Span

namespace Labels

/-- Everything keeps its name and its place. -/
def same : Labels :=
  ⟨id, id⟩

@[simp] theorem same_name (x : String) : same.name x = x := rfl

@[simp] theorem same_span (s : Span) : same.span s = s := rfl

end Labels

/-! ## Trees -/

/-- An expression with other labels. -/
def Expr.relabel (ℓ : Labels) : Expr → Expr
  | .number x s => .number x (ℓ.span s)
  | .text t s => .text t (ℓ.span s)
  | .bool b s => .bool b (ℓ.span s)
  | .name x s => .name (ℓ.name x) (ℓ.span s)
  | .assign x value s => .assign (ℓ.name x) (value.relabel ℓ) (ℓ.span s)
  | .binary op left right s => .binary op (left.relabel ℓ) (right.relabel ℓ) (ℓ.span s)
  | .unary op operand s => .unary op (operand.relabel ℓ) (ℓ.span s)

/-- A definition with other labels. -/
def Binding.relabel (ℓ : Labels) (b : Binding) : Binding :=
  ⟨ℓ.name b.name, b.value.relabel ℓ, ℓ.span b.span⟩

/-- The start of a `for` with other labels. -/
def Init.relabel (ℓ : Labels) : Init → Init
  | .define b => .define (b.relabel ℓ)
  | .expr e => .expr (e.relabel ℓ)

mutual

/-- A statement with other labels. -/
def Stmt.relabel (ℓ : Labels) : Stmt → Stmt
  | .define b => .define (b.relabel ℓ)
  | .print e => .print (e.relabel ℓ)
  | .block b => .block (b.relabel ℓ)
  | .branch c b o => .branch (c.relabel ℓ) (b.relabel ℓ) (o.relabel ℓ)
  | .whileLoop c b => .whileLoop (c.relabel ℓ) (b.relabel ℓ)
  | .forLoop i c n b =>
    .forLoop (i.map (Init.relabel ℓ)) (c.map (Expr.relabel ℓ)) (n.map (Expr.relabel ℓ))
      (b.relabel ℓ)
  | .expr e => .expr (e.relabel ℓ)

/-- Statements with other labels. -/
def Stmt.relabelAll (ℓ : Labels) : List Stmt → List Stmt
  | [] => []
  | s :: ss => s.relabel ℓ :: Stmt.relabelAll ℓ ss

/-- A block with other labels. -/
def Block.relabel (ℓ : Labels) : Block → Block
  | .mk ss s => .mk (Stmt.relabelAll ℓ ss) (ℓ.span s)

/-- What an `if` does when its condition fails, with other labels. -/
def Otherwise.relabel (ℓ : Labels) : Otherwise → Otherwise
  | .nothing => .nothing
  | .block b => .block (b.relabel ℓ)
  | .branch c b o => .branch (c.relabel ℓ) (b.relabel ℓ) (o.relabel ℓ)

end

/-- A program with other labels. -/
def Program.relabel (ℓ : Labels) (p : Program) : Program :=
  ⟨Stmt.relabelAll ℓ p.statements⟩

@[simp] theorem Expr.span_relabel (ℓ : Labels) (e : Expr) :
    (e.relabel ℓ).span = ℓ.span e.span := by
  cases e <;> rfl

theorem Stmt.length_relabelAll (ℓ : Labels) (ss : List Stmt) :
    (Stmt.relabelAll ℓ ss).length = ss.length := by
  induction ss with
  | nil => rfl
  | cons s ss ih => simp [Stmt.relabelAll, ih]

/-! ## Relabelling with the same labels -/

theorem Expr.relabel_same (e : Expr) : e.relabel .same = e := by
  induction e with
  | number x s => rfl
  | text t s => rfl
  | bool b s => rfl
  | name x s => rfl
  | assign x value s ih => simp [relabel, ih]
  | binary op left right s ihl ihr => simp [relabel, ihl, ihr]
  | unary op operand s ih => simp [relabel, ih]

theorem map_relabel_same (e : Option Expr) : e.map (Expr.relabel .same) = e := by
  cases e <;> simp [Expr.relabel_same]

theorem Binding.relabel_same (b : Binding) : b.relabel .same = b := by
  simp [Binding.relabel, Expr.relabel_same]

theorem Init.map_relabel_same (i : Option Init) : i.map (Init.relabel .same) = i := by
  match i with
  | some (.define b) => simp [Init.relabel, Binding.relabel_same]
  | some (.expr e) => simp [Init.relabel, Expr.relabel_same]
  | none => rfl

mutual

theorem Stmt.relabel_same (s : Stmt) : s.relabel .same = s := by
  match s with
  | .define b => rw [Stmt.relabel, Binding.relabel_same]
  | .print e => rw [Stmt.relabel, Expr.relabel_same]
  | .block b => rw [Stmt.relabel, Block.relabel_same]
  | .branch c b o =>
    rw [Stmt.relabel, Expr.relabel_same, Block.relabel_same, Otherwise.relabel_same]
  | .whileLoop c b => rw [Stmt.relabel, Expr.relabel_same, Block.relabel_same]
  | .forLoop i c n b =>
    rw [Stmt.relabel, Init.map_relabel_same, map_relabel_same, map_relabel_same,
      Block.relabel_same]
  | .expr e => rw [Stmt.relabel, Expr.relabel_same]

theorem Stmt.relabelAll_same (ss : List Stmt) : Stmt.relabelAll .same ss = ss := by
  match ss with
  | [] => rfl
  | s :: ss => rw [Stmt.relabelAll, Stmt.relabel_same, Stmt.relabelAll_same]

theorem Block.relabel_same (b : Block) : b.relabel .same = b := by
  match b with
  | .mk ss s =>
    rw [Block.relabel, Stmt.relabelAll_same]
    rfl

theorem Otherwise.relabel_same (o : Otherwise) : o.relabel .same = o := by
  match o with
  | .nothing => rfl
  | .block b => rw [Otherwise.relabel, Block.relabel_same]
  | .branch c b o =>
    rw [Otherwise.relabel, Expr.relabel_same, Block.relabel_same, Otherwise.relabel_same]

end

/-! ## Names -/

/-- The names in an expression. -/
def Expr.names : Expr → List String
  | .number _ _ => []
  | .text _ _ => []
  | .bool _ _ => []
  | .name x _ => [x]
  | .assign x value _ => x :: value.names
  | .binary _ left right _ => left.names ++ right.names
  | .unary _ operand _ => operand.names

/-- The names in an expression that may be left out. -/
def namesOf : Option Expr → List String
  | some e => e.names
  | none => []

/-- The names in a definition. -/
def Binding.names (b : Binding) : List String :=
  b.name :: b.value.names

/-- The names in the start of a `for`. -/
def Init.names : Option Init → List String
  | some (.define b) => b.names
  | some (.expr e) => e.names
  | none => []

mutual

/-- The names in a statement. -/
def Stmt.names : Stmt → List String
  | .define b => b.names
  | .print e => e.names
  | .block b => b.names
  | .branch c b o => c.names ++ b.names ++ o.names
  | .whileLoop c b => c.names ++ b.names
  | .forLoop i c n b => Init.names i ++ namesOf c ++ namesOf n ++ b.names
  | .expr e => e.names

/-- The names in some statements. -/
def Stmt.namesAll : List Stmt → List String
  | [] => []
  | s :: ss => s.names ++ Stmt.namesAll ss

/-- The names in a block. -/
def Block.names : Block → List String
  | .mk ss _ => Stmt.namesAll ss

/-- The names in what an `if` does when its condition fails. -/
def Otherwise.names : Otherwise → List String
  | .nothing => []
  | .block b => b.names
  | .branch c b o => c.names ++ b.names ++ o.names

end

/-! ### The names of a relabelled tree -/

theorem Expr.names_relabel (ℓ : Labels) (e : Expr) :
    (e.relabel ℓ).names = e.names.map ℓ.name := by
  induction e with
  | number x s => rfl
  | text t s => rfl
  | bool b s => rfl
  | name x s => rfl
  | assign x value s ih => simp [relabel, names, ih]
  | binary op left right s ihl ihr => simp [relabel, names, ihl, ihr]
  | unary op operand s ih => simp [relabel, names, ih]

theorem namesOf_relabel (ℓ : Labels) (e : Option Expr) :
    namesOf (e.map (Expr.relabel ℓ)) = (namesOf e).map ℓ.name := by
  cases e with
  | none => rfl
  | some e => exact e.names_relabel ℓ

theorem Binding.names_relabel (ℓ : Labels) (b : Binding) :
    (b.relabel ℓ).names = b.names.map ℓ.name := by
  simp [Binding.names, Binding.relabel, Expr.names_relabel]

theorem Init.names_relabel (ℓ : Labels) (i : Option Init) :
    Init.names (i.map (Init.relabel ℓ)) = (Init.names i).map ℓ.name := by
  match i with
  | some (.define b) => exact b.names_relabel ℓ
  | some (.expr e) => exact e.names_relabel ℓ
  | none => rfl

mutual

theorem Stmt.names_relabel (ℓ : Labels) (s : Stmt) :
    (s.relabel ℓ).names = s.names.map ℓ.name := by
  match s with
  | .define b => rw [Stmt.relabel, Stmt.names, Stmt.names, Binding.names_relabel]
  | .print e => rw [Stmt.relabel, Stmt.names, Stmt.names, Expr.names_relabel]
  | .block b => rw [Stmt.relabel, Stmt.names, Stmt.names, Block.names_relabel]
  | .branch c b o =>
    rw [Stmt.relabel, Stmt.names, Stmt.names, Expr.names_relabel, Block.names_relabel,
      Otherwise.names_relabel, List.map_append, List.map_append]
  | .whileLoop c b =>
    rw [Stmt.relabel, Stmt.names, Stmt.names, Expr.names_relabel, Block.names_relabel,
      List.map_append]
  | .forLoop i c n b =>
    rw [Stmt.relabel, Stmt.names, Stmt.names, Init.names_relabel, namesOf_relabel,
      namesOf_relabel, Block.names_relabel, List.map_append, List.map_append, List.map_append]
  | .expr e => rw [Stmt.relabel, Stmt.names, Stmt.names, Expr.names_relabel]

theorem Stmt.namesAll_relabelAll (ℓ : Labels) (ss : List Stmt) :
    Stmt.namesAll (Stmt.relabelAll ℓ ss) = (Stmt.namesAll ss).map ℓ.name := by
  match ss with
  | [] => rfl
  | s :: ss =>
    rw [Stmt.relabelAll, Stmt.namesAll, Stmt.namesAll, Stmt.names_relabel,
      Stmt.namesAll_relabelAll, List.map_append]

theorem Block.names_relabel (ℓ : Labels) (b : Block) :
    (b.relabel ℓ).names = b.names.map ℓ.name := by
  match b with
  | .mk ss s => rw [Block.relabel, Block.names, Block.names, Stmt.namesAll_relabelAll]

theorem Otherwise.names_relabel (ℓ : Labels) (o : Otherwise) :
    (o.relabel ℓ).names = o.names.map ℓ.name := by
  match o with
  | .nothing => rfl
  | .block b => rw [Otherwise.relabel, Otherwise.names, Otherwise.names, Block.names_relabel]
  | .branch c b o =>
    rw [Otherwise.relabel, Otherwise.names, Otherwise.names, Expr.names_relabel,
      Block.names_relabel, Otherwise.names_relabel, List.map_append, List.map_append]

end

/-! ## Errors of a run -/

/-- A runtime error with other labels. -/
def RuntimeError.relabel (ℓ : Labels) : RuntimeError → RuntimeError
  | .undefinedVariable x s => .undefinedVariable (ℓ.name x) (ℓ.span s)
  | .divisionByZero s => .divisionByZero (ℓ.span s)
  | .typeError mismatch s => .typeError mismatch (ℓ.span s)

theorem RuntimeError.relabel_same (e : RuntimeError) : e.relabel .same = e := by
  cases e <;> rfl

theorem BinaryOp.apply_relabel (ℓ : Labels) (op : BinaryOp) (a b : Value) (s divisor : Span) :
    op.apply a b (ℓ.span s) (ℓ.span divisor) =
      (op.apply a b s divisor).mapError (RuntimeError.relabel ℓ) := by
  unfold BinaryOp.apply
  cases op with
  | div => cases a <;> cases b <;> dsimp only <;> first | rfl | (split <;> rfl)
  | _ => cases a <;> cases b <;> rfl

theorem UnaryOp.apply_relabel (ℓ : Labels) (op : UnaryOp) (v : Value) (s : Span) :
    op.apply v (ℓ.span s) = (op.apply v s).mapError (RuntimeError.relabel ℓ) := by
  cases op <;> cases v <;> rfl

end Respell
