-- SUMMARY: Expressions, statements and programs.
import Respell.Span

/-!
# Programs

The tree of a program. Every expression, block and definition knows the span of its text, which is
what an error points at. A chain of `else if` is a value of `Otherwise`, so an `if` is the same
three parts wherever it stands.
-/

namespace Respell

/-- Operators between two operands. -/
inductive BinaryOp where
  | add
  | sub
  | mul
  | div
  | equal
  | notEqual
  | less
  | greater
  | both
  | either
deriving Repr, DecidableEq, Inhabited

/-- Operators before an operand. -/
inductive UnaryOp where
  | plus
  | negate
  | not
deriving Repr, DecidableEq, Inhabited

/-- How a binary operator is written. -/
def BinaryOp.text : BinaryOp → String
  | .add => "+"
  | .sub => "-"
  | .mul => "*"
  | .div => "/"
  | .equal => "=="
  | .notEqual => "!="
  | .less => "<"
  | .greater => ">"
  | .both => "&&"
  | .either => "||"

/-- How a unary operator is written. -/
def UnaryOp.text : UnaryOp → String
  | .plus => "+"
  | .negate => "-"
  | .not => "!"

/-- An expression. -/
inductive Expr where
  | number (value : Float) (span : Span)
  | text (contents : String) (span : Span)
  | bool (value : Bool) (span : Span)
  | name (name : String) (span : Span)
  /-- changes a variable that exists -/
  | assign (name : String) (value : Expr) (span : Span)
  | binary (op : BinaryOp) (left right : Expr) (span : Span)
  | unary (op : UnaryOp) (operand : Expr) (span : Span)
deriving Inhabited

namespace Expr

/-- Where the text of an expression stands. -/
def span : Expr → Span
  | .number _ s => s
  | .text _ s => s
  | .bool _ s => s
  | .name _ s => s
  | .assign _ _ s => s
  | .binary _ _ _ s => s
  | .unary _ _ s => s

/-- The same expression with another span of its own. -/
def withSpan (s : Span) : Expr → Expr
  | .number x _ => .number x s
  | .text t _ => .text t s
  | .bool b _ => .bool b s
  | .name n _ => .name n s
  | .assign n e _ => .assign n e s
  | .binary op l r _ => .binary op l r s
  | .unary op e _ => .unary op e s

@[simp] theorem span_withSpan (s : Span) (e : Expr) : (e.withSpan s).span = s := by
  cases e <;> rfl

end Expr

/-- A definition `let name = value`. -/
structure Binding where
  name : String
  value : Expr
  span : Span
deriving Inhabited

/-- What a `for` does before it starts. -/
inductive Init where
  | define (binding : Binding)
  | expr (value : Expr)
deriving Inhabited

mutual

/-- A statement. -/
inductive Stmt where
  | define (binding : Binding)
  | print (value : Expr)
  | block (body : Block)
  | branch (condition : Expr) (consequence : Block) (otherwise : Otherwise)
  | whileLoop (condition : Expr) (body : Block)
  | forLoop (init : Option Init) (condition increment : Option Expr) (body : Block)
  | expr (value : Expr)

/-- A list of statements with a scope of its own. -/
inductive Block where
  | mk (statements : List Stmt) (span : Span)

/-- What an `if` does when its condition fails. -/
inductive Otherwise where
  | nothing
  | block (body : Block)
  | branch (condition : Expr) (consequence : Block) (otherwise : Otherwise)

end

namespace Block

/-- The statements of a block. -/
def statements : Block → List Stmt
  | .mk ss _ => ss

/-- Where the text of a block stands. -/
def span : Block → Span
  | .mk _ s => s

end Block

/-- A program. -/
structure Program where
  statements : List Stmt

end Respell
