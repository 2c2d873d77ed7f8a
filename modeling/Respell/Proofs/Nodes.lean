-- SUMMARY: The expressions that stand in a program, at whatever depth.
import Respell.Program

/-!
# Nodes

An error or a diagnostic points at an expression, which may stand anywhere inside a program. `nodes`
lists all of them: for each construct the expressions that it holds, and the expressions inside of
those.
-/

namespace Respell

namespace Expr

/-- The expressions directly inside an expression, in the order of the source. -/
def children : Expr → List Expr
  | .assign _ value _ => [value]
  | .binary _ left right _ => [left, right]
  | .unary _ operand _ => [operand]
  | _ => []

/-- All expressions inside an expression, which itself is not one of them. -/
def inside : Expr → List Expr
  | .number _ _ => []
  | .text _ _ => []
  | .bool _ _ => []
  | .name _ _ => []
  | .assign _ value _ => value :: value.inside
  | .binary _ left right _ => left :: left.inside ++ right :: right.inside
  | .unary _ operand _ => operand :: operand.inside

/-- An expression and all expressions inside of it. -/
def nodes (e : Expr) : List Expr :=
  e :: e.inside

@[simp] theorem inside_withSpan (s : Span) (e : Expr) : (e.withSpan s).inside = e.inside := by
  cases e <;> rfl

/-- The nodes of a child are nodes of the expression. -/
theorem nodes_subset_of_child {child e : Expr} (h : child ∈ e.children) :
    child.nodes ⊆ e.nodes := by
  refine List.Subset.trans ?_ (List.subset_cons_self _ _)
  cases e with
  | assign x value s =>
    obtain rfl : child = value := List.mem_singleton.mp h
    exact fun n hn => hn
  | unary op operand s =>
    obtain rfl : child = operand := List.mem_singleton.mp h
    exact fun n hn => hn
  | binary op left right s =>
    intro n hn
    rcases List.mem_cons.mp h with rfl | h
    · exact List.mem_append_left _ hn
    · obtain rfl : child = right := List.mem_singleton.mp h
      exact List.mem_append_right _ hn
  | _ => exact absurd h List.not_mem_nil

end Expr

/-- The nodes of an expression that may be left out. -/
def nodesOf : Option Expr → List Expr
  | some e => e.nodes
  | none => []

/-- The nodes of what a `for` does before it starts. -/
def Init.nodes : Option Init → List Expr
  | some (.define b) => b.value.nodes
  | some (.expr e) => e.nodes
  | none => []

mutual

/-- The nodes of a statement. -/
def Stmt.nodes : Stmt → List Expr
  | .define b => b.value.nodes
  | .print e => e.nodes
  | .block b => b.nodes
  | .branch c b o => c.nodes ++ b.nodes ++ o.nodes
  | .whileLoop c b => c.nodes ++ b.nodes
  | .forLoop i c n b => Init.nodes i ++ nodesOf c ++ nodesOf n ++ b.nodes
  | .expr e => e.nodes

/-- The nodes of some statements. -/
def Stmt.nodesAll : List Stmt → List Expr
  | [] => []
  | s :: ss => s.nodes ++ Stmt.nodesAll ss

/-- The nodes of a block. -/
def Block.nodes : Block → List Expr
  | .mk ss _ => Stmt.nodesAll ss

/-- The nodes of what an `if` does when its condition fails. -/
def Otherwise.nodes : Otherwise → List Expr
  | .nothing => []
  | .block b => b.nodes
  | .branch c b o => c.nodes ++ b.nodes ++ o.nodes

end

/-- The nodes of a program. -/
def Program.nodes (p : Program) : List Expr :=
  Stmt.nodesAll p.statements

end Respell
