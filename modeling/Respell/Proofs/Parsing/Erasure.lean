-- SUMMARY: Trees up to their spans.
import Respell.Program

/-!
# Erasure

Two trees are the same up to spans when they are equal once every span is erased.
-/

namespace Respell

/-- Nowhere in particular. -/
def Span.blank : Span := ⟨0, 0⟩

/-- An expression without its spans. -/
def Expr.erase : Expr → Expr
  | .number x _ => .number x .blank
  | .text s _ => .text s .blank
  | .bool b _ => .bool b .blank
  | .name x _ => .name x .blank
  | .assign x v _ => .assign x v.erase .blank
  | .binary op l r _ => .binary op l.erase r.erase .blank
  | .unary op e _ => .unary op e.erase .blank

@[simp] theorem Expr.erase_withSpan (s : Span) (e : Expr) : (e.withSpan s).erase = e.erase := by
  cases e <;> rfl

theorem Expr.withSpan_span (e : Expr) : e.withSpan e.span = e := by
  cases e <;> rfl

/-- Only a variable is a variable without its span. -/
theorem Expr.eq_name_of_erase {e : Expr} {x : String} {s : Span}
    (h : e.erase = (Expr.name x s).erase) : ∃ s', e = .name x s' := by
  cases e with
  | name y s' =>
    cases h
    exact ⟨s', rfl⟩
  | _ => cases h

/-- A definition without its spans. -/
def Binding.erase (b : Binding) : Binding :=
  ⟨b.name, b.value.erase, .blank⟩

/-- The start of a `for` without its spans. -/
def Init.erase : Init → Init
  | .define b => .define b.erase
  | .expr e => .expr e.erase

mutual

/-- A statement without its spans. -/
def Stmt.erase : Stmt → Stmt
  | .define b => .define b.erase
  | .print e => .print e.erase
  | .block b => .block b.erase
  | .branch c b o => .branch c.erase b.erase o.erase
  | .whileLoop c b => .whileLoop c.erase b.erase
  | .forLoop i c n b => .forLoop (i.map Init.erase) (c.map Expr.erase) (n.map Expr.erase) b.erase
  | .expr e => .expr e.erase

/-- Statements without their spans. -/
def Stmt.eraseAll : List Stmt → List Stmt
  | [] => []
  | s :: ss => s.erase :: Stmt.eraseAll ss

/-- A block without its spans. -/
def Block.erase : Block → Block
  | .mk ss _ => .mk (Stmt.eraseAll ss) .blank

/-- What an `if` does when its condition fails, without spans. -/
def Otherwise.erase : Otherwise → Otherwise
  | .nothing => .nothing
  | .block b => .block b.erase
  | .branch c b o => .branch c.erase b.erase o.erase

end

/-- A program without its spans. -/
def Program.erase (p : Program) : Program :=
  ⟨Stmt.eraseAll p.statements⟩

end Respell
