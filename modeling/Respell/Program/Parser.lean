-- SUMMARY: Reading a program from its tokens.
import Respell.Program
import Respell.Program.Cursor

/-!
# From tokens to programs

The grammar, production by production. Productions take the room that is left for nesting: a
statement, an expression, an `else if`, the operand of a unary operator and every operator of a
chain take one level of it. That bounds the depth of the tree, and it is also what the recursion
descends on.
-/

namespace Respell

/-- How many levels of statements and expressions a program may nest. -/
def maxNesting : Nat := 256

/-- The levels of binary operators, each of which binds its operands less tightly than the next. -/
inductive Level where
  | either
  | both
  | comparison
  | sum
  | product
deriving Repr, DecidableEq

namespace Level

/-- Every level, the loosest first. -/
def all : List Level :=
  [.either, .both, .comparison, .sum, .product]

/-- The operator of this level that a token stands for. -/
def operator? : Level → Kind → Option BinaryOp
  | .either, .symbol .either => some .either
  | .both, .symbol .both => some .both
  | .comparison, .symbol .equal => some .equal
  | .comparison, .symbol .notEqual => some .notEqual
  | .comparison, .symbol .less => some .less
  | .comparison, .symbol .greater => some .greater
  | .sum, .symbol .plus => some .add
  | .sum, .symbol .minus => some .sub
  | .product, .symbol .star => some .mul
  | .product, .symbol .slash => some .div
  | _, _ => none

end Level

namespace Parser

/-! ## Expressions -/

mutual

/-- An expression, one level deeper. -/
def expression (room : Nat) : Parser Expr :=
  match room with
  | 0 => tooDeep .expression
  | room + 1 => assignment room
termination_by (room, 0)

/-- An assignment `name = value`, or an operation. The target may be in parentheses, and it is
    looked at only once the value has been read. -/
def assignment (room : Nat) : Parser Expr := do
  let target ← operation room Level.all
  let sign ← peek
  if ← eat .assign then
    let value ← expression room
    match target with
    | .name name span => return .assign name value (span.merge value.span)
    | _ => failAt .notAssignable (target.span.merge sign.span)
  else
    return target
termination_by (room, 4 + Level.all.length)

/-- Operands joined by operators of the given levels, from the loosest on. -/
def operation (room : Nat) (levels : List Level) : Parser Expr :=
  match levels with
  | [] => primary room
  | level :: levels => do
    let left ← operation room levels
    chain room level levels left
termination_by (room, 3 + levels.length)

/-- The rest of a chain of operators of one level; they group to the left. -/
def chain (room : Nat) (level : Level) (levels : List Level) (left : Expr) : Parser Expr := do
  match level.operator? (← peek).kind with
  | none => return left
  | some op =>
    match room with
    | 0 => tooDeep .expression
    | room + 1 => do
      let _ ← next
      let right ← operation room levels
      chain room level levels (.binary op left right (left.span.merge right.span))
termination_by (room, 0)

/-- A literal, a variable, an expression in parentheses, or a unary operator and its operand. -/
def primary (room : Nat) : Parser Expr := do
  let token ← peek
  match token.kind with
  | .number x => let _ ← next; return .number x token.span
  | .text s => let _ ← next; return .text s token.span
  | .keyword .trueWord => let _ ← next; return .bool true token.span
  | .keyword .falseWord => let _ ← next; return .bool false token.span
  | .word name => let _ ← next; return .name name token.span
  | .symbol .leftParen =>
    let _ ← next
    let inner ← expression room
    let stop ← expect .rightParen
    return inner.withSpan (token.span.merge stop)
  | .symbol .plus => unary room .plus token.span
  | .symbol .minus => unary room .negate token.span
  | .symbol .bang => unary room .not token.span
  | _ => wanted .expression
termination_by (room, 2)

/-- A unary operator, which stands at the cursor, and its operand one level deeper. -/
def unary (room : Nat) (op : UnaryOp) (start : Span) : Parser Expr := do
  let _ ← next
  match room with
  | 0 => tooDeep .expression
  | room + 1 => do
    let operand ← primary room
    return .unary op operand (start.merge operand.span)
termination_by (room, 1)

end

/-! ## Statements -/

/-- The statements up to a token that stops them. As every statement takes a token, `count` is
    enough when it is the number of tokens after the cursor. -/
def statementsWithin (statement : Parser Stmt) (stops : Kind → Bool) : Nat → Parser (List Stmt)
  | 0 => pure []
  | count + 1 => do
    if stops (← peek).kind then return []
    let first ← statement
    let rest ← statementsWithin statement stops count
    return first :: rest

/-- The statements up to a token that stops them. -/
def statements (statement : Parser Stmt) (stops : Kind → Bool) : Parser (List Stmt) :=
  fun c => statementsWithin statement stops c.later.length c

/-- Whether a token ends the statements of a block. -/
def endsBlock (k : Kind) : Bool :=
  k.isSymbol .rightBrace || k.isEof

/-- Statements in braces. -/
def block (statement : Parser Stmt) : Parser Block := do
  let start ← expect .leftBrace
  let inner ← statements statement endsBlock
  let stop ← expect .rightBrace
  return .mk inner (start.merge stop)

/-- The body of a loop: a block, or a single statement that is made one. -/
def body (statement : Parser Stmt) : Parser Block := do
  if ← sees .leftBrace then block statement
  else
    let first ← peek
    let only ← statement
    return .mk [only] (first.span.merge (← previous))

/-- A definition `let name = value`; the keyword stands at the cursor. -/
def binding (room : Nat) : Parser Binding := do
  let start ← next
  match (← peek).kind with
  | .word name =>
    let _ ← next
    let _ ← expect .assign
    let value ← expression room
    return ⟨name, value, start.span.merge value.span⟩
  | kind => fail (.wantedName kind)

/-- An expression in parentheses after a keyword, which stands at the cursor. -/
def parenthesised (room : Nat) : Parser Expr := do
  let _ ← next
  let _ ← expect .leftParen
  let inner ← expression room
  let _ ← expect .rightParen
  return inner

/-- The three parts of an `if`; the keyword stands at the cursor. -/
def branch (room : Nat) (statement : Parser Stmt) (elseIf : Parser (Expr × Block × Otherwise)) :
    Parser (Expr × Block × Otherwise) := do
  let condition ← parenthesised room
  let consequence ← block statement
  if (← peek).kind.isKeyword .elseWord then
    let _ ← next
    if (← peek).kind.isKeyword .ifWord then
      let (condition', consequence', otherwise) ← elseIf
      return (condition, consequence, .branch condition' consequence' otherwise)
    else
      return (condition, consequence, .block (← block statement))
  else
    return (condition, consequence, .nothing)

/-- What a `for` does before it starts, if anything. -/
def init (room : Nat) : Parser (Option Init) := do
  match (← peek).kind with
  | .symbol .semicolon => return none
  | .keyword .letWord => return some (.define (← binding room))
  | _ => return some (.expr (← expression room))

/-- An expression, unless the given symbol stands in its place. -/
def clause (room : Nat) (stop : Symbol) : Parser (Option Expr) := do
  if ← sees stop then return none
  return some (← expression room)

/-- A `for`; the keyword stands at the cursor. -/
def forLoop (room : Nat) (statement : Parser Stmt) : Parser Stmt := do
  let _ ← next
  let _ ← expect .leftParen
  let start ← init room
  let _ ← expect .semicolon
  let condition ← clause room .semicolon
  let _ ← expect .semicolon
  let increment ← clause room .rightParen
  let _ ← expect .rightParen
  return .forLoop start condition increment (← body statement)

/-- An expression as a statement. Its semicolon may be left out only where nothing can follow. -/
def expressionStatement (room : Nat) : Parser Stmt := do
  let value ← expression room
  if ← eat .semicolon then return .expr value
  else if endsBlock (← peek).kind then return .expr value
  else wanted (.symbol .semicolon)

/-- The statement at the cursor, given the parsers for what it nests. -/
def statementAt (room : Nat) (statement : Parser Stmt)
    (elseIf : Parser (Expr × Block × Otherwise)) : Parser Stmt := do
  match (← peek).kind with
  | .keyword .letWord =>
    let definition ← binding room
    let _ ← eat .semicolon
    return .define definition
  | .keyword .printWord =>
    let value ← parenthesised room
    let _ ← eat .semicolon
    return .print value
  | .keyword .ifWord =>
    let (condition, consequence, otherwise) ← branch room statement elseIf
    return .branch condition consequence otherwise
  | .keyword .whileWord =>
    let condition ← parenthesised room
    return .whileLoop condition (← body statement)
  | .keyword .forWord => forLoop room statement
  | .symbol .leftBrace => return .block (← block statement)
  | _ => expressionStatement room

mutual

/-- A statement, one level deeper. -/
def statement : Nat → Parser Stmt
  | 0 => tooDeep .statement
  | room + 1 => statementAt room (statement room) (elseIf room)

/-- The `if` of an `else if`, one level deeper. -/
def elseIf : Nat → Parser (Expr × Block × Otherwise)
  | 0 => tooDeep .statement
  | room + 1 => branch room (statement room) (elseIf room)

end

/-- A whole program. -/
def program : Parser Program := do
  return ⟨← statements (statement maxNesting) Kind.isEof⟩

end Parser

/-- The program that a list of tokens stands for. -/
def Program.parse (tokens : List Token) : Except ParseError Program :=
  match Parser.program (Cursor.ofTokens tokens) with
  | .ok program _ => .ok program
  | .error e _ => .error e

end Respell
