-- SUMMARY: Values of the language, their text, and what the operators do to them.
import Respell.Decimal.Layout
import Respell.Program
import Respell.Text.Utf8

/-!
# Values

A value is null, a truth value, a number or a text. Operators never turn one kind into another,
except that `+` with a text on one side joins the texts of both.
-/

namespace Respell

/-- A value. -/
inductive Value where
  | null
  | bool (value : Bool)
  | number (value : Float)
  | text (contents : String)
deriving Inhabited

/-- The kinds of values. -/
inductive ValueType where
  | null
  | bool
  | number
  | text
deriving Repr, DecidableEq

/-- How messages name a kind of values. -/
def ValueType.describe : ValueType → String
  | .null => "null"
  | .bool => "boolean"
  | .number => "number"
  | .text => "string"

/-- Numbers in output are written positionally from `1e-6` up to `1e21`, and zero has no sign. -/
def numberStyle : Decimal.Style where
  tie := .up
  positional := fun e => -6 ≤ e && e ≤ 20
  pointZero := false
  signedZero := false
  nan := "NaN"
  infinity := "Infinity"

theorem numberStyle_positional_iff {e : Int} :
    numberStyle.positional e = true ↔ -6 ≤ e ∧ e ≤ 20 := by
  simp [numberStyle]

namespace Value

/-- The kind of a value. -/
def type : Value → ValueType
  | .null => .null
  | .bool _ => .bool
  | .number _ => .number
  | .text _ => .text

/-- Whether a condition with this value holds: all but null and false do. -/
def truthy : Value → Bool
  | .null => false
  | .bool b => b
  | .number _ => true
  | .text _ => true

/-- The text of a value. -/
def render : Value → String
  | .null => "null"
  | .bool b => if b then "true" else "false"
  | .number x => numberStyle.write x
  | .text s => s

/-- Whether two values are of one kind and equal. Numbers are compared as numbers, so not-a-number
    differs from itself and the two zeros are equal. -/
def same : Value → Value → Bool
  | .null, .null => true
  | .bool a, .bool b => a == b
  | .number a, .number b => a == b
  | .text a, .text b => a == b
  | _, _ => false

end Value

/-! ## Errors -/

/-- Operands that an operator does not take. -/
inductive Mismatch where
  | binary (op : BinaryOp) (left right : ValueType)
  | unary (op : UnaryOp) (operand : ValueType)
deriving Repr, DecidableEq

/-- Why a program stopped. -/
inductive RuntimeError where
  | undefinedVariable (name : String) (span : Span)
  | divisionByZero (span : Span)
  | typeError (mismatch : Mismatch) (span : Span)
deriving Repr, DecidableEq

/-- What is wrong with the operands. -/
def Mismatch.describe : Mismatch → String
  | .binary op left right =>
    "cannot apply `" ++ op.text ++ "` to " ++ left.describe ++ " and " ++ right.describe
  | .unary op operand => "cannot apply unary `" ++ op.text ++ "` to " ++ operand.describe

namespace RuntimeError

/-- Where the error is. -/
def span : RuntimeError → Span
  | .undefinedVariable _ s => s
  | .divisionByZero s => s
  | .typeError _ s => s

/-- The message of the error. -/
def message : RuntimeError → String
  | .undefinedVariable name _ => "Undefined variable: " ++ name
  | .divisionByZero _ => "Division by zero"
  | .typeError mismatch _ => "Type error: " ++ mismatch.describe

end RuntimeError

/-! ## Operators -/

/-- The value of a binary operation whose operands both have values. `span` is where the operation
    stands and `divisor` where its right operand does. -/
def BinaryOp.apply (op : BinaryOp) (left right : Value) (span divisor : Span) :
    Except RuntimeError Value :=
  let mismatch : Except RuntimeError Value :=
    .error (.typeError (.binary op left.type right.type) span)
  match op with
  | .add =>
    match left, right with
    | .text a, b => .ok (.text (a ++ b.render))
    | a, .text b => .ok (.text (a.render ++ b))
    | .number a, .number b => .ok (.number (a + b))
    | _, _ => mismatch
  | .sub =>
    match left, right with
    | .number a, .number b => .ok (.number (a - b))
    | _, _ => mismatch
  | .mul =>
    match left, right with
    | .number a, .number b => .ok (.number (a * b))
    | _, _ => mismatch
  | .div =>
    match left, right with
    | .number a, .number b =>
      if b == 0 then .error (.divisionByZero divisor) else .ok (.number (a / b))
    | _, _ => mismatch
  | .equal => .ok (.bool (left.same right))
  | .notEqual => .ok (.bool !(left.same right))
  | .less =>
    match left, right with
    | .number a, .number b => .ok (.bool (decide (a < b)))
    | .text a, .text b => .ok (.bool (Text.precedes a b))
    | _, _ => mismatch
  | .greater =>
    match left, right with
    | .number a, .number b => .ok (.bool (decide (b < a)))
    | .text a, .text b => .ok (.bool (Text.precedes b a))
    | _, _ => mismatch
  | .both => .ok (.bool (left.truthy && right.truthy))
  | .either => .ok (.bool (left.truthy || right.truthy))

/-- The value of a unary operation, which stands at `span`. -/
def UnaryOp.apply (op : UnaryOp) (operand : Value) (span : Span) : Except RuntimeError Value :=
  match op, operand with
  | .not, v => .ok (.bool !v.truthy)
  | .negate, .number x => .ok (.number (-x))
  | .plus, .number x => .ok (.number x)
  | op, v => .error (.typeError (.unary op v.type) span)

end Respell
