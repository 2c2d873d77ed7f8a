-- SUMMARY: The parser with its counters: an index, a depth that is raised and set back, and a log.
import Respell.Program.Parser

/-!
# The parser that counts

The productions once more, in terms of the counters that the nesting is kept with. A token is looked
up by its index, which may be out of range. The depth is one number for the whole parser: it is
raised by a level that is entered and by every operator of a chain, and it is set back where a level
is left, but not where a chain breaks off with an error. The productions and the rounds of the loops
do not go by the levels that are left: they are given a number of steps that they may be within one
another, and a run that would go further has no result. So the parser comes to an end if it has the
same result with every number of steps from some number on.

Two counters more are kept for the record only: how many levels are entered at the moment and how
many productions are under way. The state after each step is noted, and so is the return of each
production that answers a value.
-/

namespace Respell

/-- The counters of a parser. -/
structure Tally where
  /-- the index of the token that is next -/
  current : Nat
  /-- how deep the next level lies, as far as the parser keeps account of it -/
  depth : Nat
  /-- the statements, expressions, `else if`s and operands of unary operators that were found not
      too deep and are not yet left -/
  opened : Nat
  /-- the productions that are under way -/
  calls : Nat

/-- What is noted about a run. -/
inductive Note where
  /-- the counters after a step -/
  | moment (now : Tally)
  /-- a production has answered a value: the counters when it was called and when it returned -/
  | returned (entry exit : Tally)

/-- The counters and what has been noted, the latest first. -/
structure Account where
  now : Tally
  notes : List Note

/-- Why a parser that counts stops early. -/
inductive Halt where
  | error (error : ParseError)
  /-- there is no token at an index that was looked at -/
  | outOfRange

namespace Account

/-- The account before the first token. -/
def start : Account :=
  ⟨⟨0, 0, 0, 0⟩, [.moment ⟨0, 0, 0, 0⟩]⟩

/-- The account after a change of the counters. -/
def move (account : Account) (change : Tally → Tally) : Account :=
  ⟨change account.now, .moment (change account.now) :: account.notes⟩

/-- The account after the return of a production that was called at `entry`. -/
def noteReturn (account : Account) (entry : Tally) : Account :=
  { account with notes := .returned entry account.now :: account.notes }

end Account

/-- The tokens a parser works on: the end of the input is added where they do not end with it. -/
def closeTokens (tokens : List Token) : List Token :=
  match tokens.getLast? with
  | some last =>
    if last.kind.isEof then tokens
    else tokens ++ [⟨.eof, ⟨last.span.stop, last.span.stop⟩⟩]
  | none => [⟨.eof, ⟨0, 0⟩⟩]

/-- A parser that counts. The counters stay as they are when it stops early. There is no result at
    all when it would go further than it may. -/
abbrev Counting (α : Type) : Type :=
  ExceptT Halt (StateT Account Option) α

namespace Counting

variable {α : Type} (tokens : List Token)

/-! ## Steps -/

/-- Go further than the parser may. -/
def beyond : Counting α :=
  liftM (none : Option α)

/-- The counters. -/
def tally : Counting Tally :=
  return (← get).now

/-- Change the counters. -/
def move (change : Tally → Tally) : Counting Unit :=
  modify fun account => account.move change

/-- Note that a production which was called at `entry` has answered a value. -/
def noteReturn (entry : Tally) : Counting Unit :=
  modify fun account => account.noteReturn entry

/-- The token with the given index. -/
def tokenAt (index : Nat) : Counting Token :=
  match tokens[index]? with
  | some token => return token
  | none => throw .outOfRange

/-- The token that is next. -/
def token : Counting Token := do
  tokenAt tokens (← tally).current

/-- The span of the token that was read last. -/
def previousSpan : Counting Span := do
  let now ← tally
  if 0 < now.current then return (← tokenAt tokens (now.current - 1)).span
  else return ⟨0, 0⟩

/-- Read one token; the end of the input stays where it is. -/
def advance : Counting Token := do
  let next ← token tokens
  if next.kind.isEof then return next
  move fun now => { now with current := now.current + 1 }
  return next

/-- Stop with a complaint about the given span. -/
def failAt (complaint : Complaint) (span : Span) : Counting α :=
  throw (.error ⟨complaint, span⟩)

/-- Stop with a complaint about the next token. -/
def fail (complaint : Complaint) : Counting α := do
  failAt complaint (← token tokens).span

/-- Complain that something else was wanted. -/
def wanted (what : Wanted) : Counting α := do
  fail tokens (.wanted what (← token tokens).kind)

/-- Whether the given symbol is next. -/
def sees (s : Symbol) : Counting Bool :=
  return (← token tokens).kind.isSymbol s

/-- Whether the keyword of the given role is next. -/
def seesKeyword (r : Role) : Counting Bool :=
  return (← token tokens).kind.isKeyword r

/-- Read the given symbol if it is next. -/
def eat (s : Symbol) : Counting Bool := do
  if ← sees tokens s then
    let _ ← advance tokens
    return true
  else
    return false

/-- Read the given symbol, which has to be next. -/
def expect (s : Symbol) : Counting Span := do
  if ← sees tokens s then return (← advance tokens).span
  else wanted tokens (.symbol s)

/-- Go one level deeper, unless that is too deep. -/
def descend (what : Construct) : Counting Unit := do
  if maxNesting ≤ (← tally).depth then fail tokens (.tooDeep what)
  else move fun now => { now with depth := now.depth + 1 }

/-! ## Brackets -/

/-- What a parser answers or stops with; what comes next is done in either case. -/
def attempt (production : Counting α) : Counting (Except Halt α) :=
  (Except.ok <$> production.run : StateT Account Option (Except Halt (Except Halt α)))

/-- Call a production. -/
def call (production : Counting α) : Counting α := do
  let entry ← tally
  move fun now => { now with calls := now.calls + 1 }
  let result ← attempt production
  move fun now => { now with calls := now.calls - 1 }
  match result with
  | .ok value =>
    noteReturn entry
    return value
  | .error halt => throw halt

/-- Enter a level, and leave it when the production has answered or stopped. To set the depth back
    is the last that is done about the level, and so the level is left by the same step. -/
def nested (what : Construct) (production : Counting α) : Counting α := do
  let outer := (← tally).depth
  descend tokens what
  move fun now => { now with opened := now.opened + 1 }
  let result ← attempt production
  move fun now => { now with depth := outer, opened := now.opened - 1 }
  match result with
  | .ok value => return value
  | .error halt => throw halt

/-! ## Expressions -/

mutual

/-- An expression. -/
def expression : Nat → Counting Expr
  | 0 => beyond
  | n + 1 => call (nested tokens .expression (assignment n))

/-- An expression that has been found not too deep. -/
def assignment : Nat → Counting Expr
  | 0 => beyond
  | n + 1 => call do
    let target ← operation n Level.all
    if ← sees tokens .assign then
      let sign ← advance tokens
      let value ← expression n
      match target with
      | .name name span => return .assign name value (span.merge value.span)
      | _ => failAt .notAssignable (target.span.merge sign.span)
    else
      return target

/-- Operands joined by operators of the given levels, from the loosest on. Once the chain has come
    to its end, the depth is what it was before the first operator. -/
def operation : Nat → List Level → Counting Expr
  | 0, _ => beyond
  | n + 1, [] => primary n
  | n + 1, level :: levels => call do
    let left ← operation n levels
    let outer := (← tally).depth
    let whole ← chain n level levels left
    move fun now => { now with depth := outer }
    return whole

/-- The rest of a chain of operators, each of which goes one level deeper. -/
def chain : Nat → Level → List Level → Expr → Counting Expr
  | 0, _, _, _ => beyond
  | n + 1, level, levels, left => do
    match level.operator? (← token tokens).kind with
    | none => return left
    | some op =>
      descend tokens .expression
      let _ ← advance tokens
      let right ← operation n levels
      chain n level levels (.binary op left right (left.span.merge right.span))

/-- A literal, a variable, an expression in parentheses, or a unary operator and its operand. -/
def primary : Nat → Counting Expr
  | 0 => beyond
  | n + 1 => call do
    let next ← token tokens
    match next.kind with
    | .number x => let _ ← advance tokens; return .number x next.span
    | .text s => let _ ← advance tokens; return .text s next.span
    | .keyword .trueWord => let _ ← advance tokens; return .bool true next.span
    | .keyword .falseWord => let _ ← advance tokens; return .bool false next.span
    | .word name => let _ ← advance tokens; return .name name next.span
    | .symbol .leftParen =>
      let _ ← advance tokens
      let inner ← expression n
      let stop ← expect tokens .rightParen
      return inner.withSpan (next.span.merge stop)
    | .symbol .plus => unary n .plus next.span
    | .symbol .minus => unary n .negate next.span
    | .symbol .bang => unary n .not next.span
    | _ => wanted tokens .expression

/-- A unary operator and its operand. -/
def unary : Nat → UnaryOp → Span → Counting Expr
  | 0, _, _ => beyond
  | n + 1, op, start => call do
    let _ ← advance tokens
    let operand ← nested tokens .expression (primary n)
    return .unary op operand (start.merge operand.span)

end

/-! ## Statements -/

/-- A definition. -/
def binding (n : Nat) : Counting Binding := call do
  let start ← advance tokens
  match (← token tokens).kind with
  | .word name =>
    let _ ← advance tokens
    let _ ← expect tokens .assign
    let value ← expression tokens n
    return ⟨name, value, start.span.merge value.span⟩
  | kind => fail tokens (.wantedName kind)

/-- An expression in parentheses after a keyword. -/
def parenthesised (n : Nat) : Counting Expr := do
  let _ ← advance tokens
  let _ ← expect tokens .leftParen
  let inner ← expression tokens n
  let _ ← expect tokens .rightParen
  return inner

/-- A `print`. -/
def print (n : Nat) : Counting Stmt := call do
  let value ← parenthesised tokens n
  let _ ← eat tokens .semicolon
  return .print value

/-- What a `for` does before it starts, if anything. -/
def init (n : Nat) : Counting (Option Init) := do
  match (← token tokens).kind with
  | .symbol .semicolon => return none
  | .keyword .letWord => return some (.define (← binding tokens n))
  | _ => return some (.expr (← expression tokens n))

/-- An expression, unless the given symbol is next. -/
def clause (n : Nat) (stop : Symbol) : Counting (Option Expr) := do
  if ← sees tokens stop then return none
  else return some (← expression tokens n)

/-- An expression as a statement. -/
def expressionStatement (n : Nat) : Counting Stmt := do
  let value ← expression tokens n
  if ← eat tokens .semicolon then return .expr value
  else if Parser.endsBlock (← token tokens).kind then return .expr value
  else wanted tokens (.symbol .semicolon)

mutual

/-- A statement. -/
def statement : Nat → Counting Stmt
  | 0 => beyond
  | n + 1 => call (nested tokens .statement (statementKind n))

/-- A statement that has been found not too deep. -/
def statementKind : Nat → Counting Stmt
  | 0 => beyond
  | n + 1 => call do
    match (← token tokens).kind with
    | .keyword .letWord =>
      let definition ← binding tokens n
      let _ ← eat tokens .semicolon
      return .define definition
    | .keyword .printWord => print tokens n
    | .keyword .ifWord =>
      let parts ← branch n
      return .branch parts.1 parts.2.1 parts.2.2
    | .keyword .whileWord => whileLoop n
    | .keyword .forWord => forLoop n
    | .symbol .leftBrace => return .block (← block n)
    | _ => expressionStatement tokens n

/-- Statements in braces. -/
def block : Nat → Counting Block
  | 0 => beyond
  | n + 1 => call do
    let start ← expect tokens .leftBrace
    let inner ← statements n Parser.endsBlock
    let stop ← expect tokens .rightBrace
    return .mk inner (start.merge stop)

/-- The statements up to a token that stops them. -/
def statements : Nat → (Kind → Bool) → Counting (List Stmt)
  | 0, _ => beyond
  | n + 1, stops => do
    if stops (← token tokens).kind then return []
    else
      let first ← statement n
      let rest ← statements n stops
      return first :: rest

/-- The body of a loop. -/
def body : Nat → Counting Block
  | 0 => beyond
  | n + 1 => call do
    if ← sees tokens .leftBrace then block n
    else
      let first ← token tokens
      let only ← statement n
      return .mk [only] (first.span.merge (← previousSpan tokens))

/-- The parts of an `if`. -/
def branch : Nat → Counting (Expr × Block × Otherwise)
  | 0 => beyond
  | n + 1 => call do
    let condition ← parenthesised tokens n
    let consequence ← block n
    let alternative ← otherwise n
    return (condition, consequence, alternative)

/-- What follows the consequence of an `if`. -/
def otherwise : Nat → Counting Otherwise
  | 0 => beyond
  | n + 1 => do
    if ← seesKeyword tokens .elseWord then
      let _ ← advance tokens
      if ← seesKeyword tokens .ifWord then
        let parts ← nested tokens .statement (branch n)
        return .branch parts.1 parts.2.1 parts.2.2
      else return .block (← block n)
    else return .nothing

/-- A `while`. -/
def whileLoop : Nat → Counting Stmt
  | 0 => beyond
  | n + 1 => call do
    let condition ← parenthesised tokens n
    let inner ← body n
    return .whileLoop condition inner

/-- A `for`. -/
def forLoop : Nat → Counting Stmt
  | 0 => beyond
  | n + 1 => call do
    let _ ← advance tokens
    let _ ← expect tokens .leftParen
    let start ← init tokens n
    let _ ← expect tokens .semicolon
    let condition ← clause tokens n .semicolon
    let _ ← expect tokens .semicolon
    let increment ← clause tokens n .rightParen
    let _ ← expect tokens .rightParen
    let inner ← body n
    return .forLoop start condition increment inner

end

/-- A whole program. -/
def program (n : Nat) : Counting Program := do
  return ⟨← statements tokens n Kind.isEof⟩

/-! ## Runs -/

/-- What a run comes to from an account, and the account at the end of it, if it ends. -/
def run (m : Counting α) (account : Account) : Option (Except Halt α × Account) :=
  (ExceptT.run m).run account

section Run

variable {β : Type} {account after : Account}

theorem run_pure (a : α) : (pure a : Counting α).run account = some (.ok a, account) := rfl

theorem run_throw (h : Halt) : (throw h : Counting α).run account = some (.error h, account) := rfl

theorem run_bind_ok {m : Counting β} {f : β → Counting α} {b : β}
    (h : m.run account = some (.ok b, after)) : (m >>= f).run account = (f b).run after := by
  unfold run at h ⊢
  rw [ExceptT.run_bind, StateT.run_bind, h]
  rfl

theorem run_bind_error {m : Counting β} {f : β → Counting α} {halt : Halt}
    (h : m.run account = some (.error halt, after)) :
    (m >>= f).run account = some (.error halt, after) := by
  unfold run at h ⊢
  rw [ExceptT.run_bind, StateT.run_bind, h]
  rfl

theorem run_bind_none {m : Counting β} {f : β → Counting α} (h : m.run account = none) :
    (m >>= f).run account = none := by
  unfold run at h ⊢
  rw [ExceptT.run_bind, StateT.run_bind, h]
  rfl

theorem run_beyond : (beyond : Counting α).run account = none := rfl

theorem run_tally : tally.run account = some (.ok account.now, account) := rfl

theorem run_move (change : Tally → Tally) :
    (move change).run account = some (.ok (), account.move change) := rfl

theorem run_noteReturn (entry : Tally) :
    (noteReturn entry).run account = some (.ok (), account.noteReturn entry) := rfl

theorem run_attempt {m : Counting α} {r : Except Halt α} (h : m.run account = some (r, after)) :
    (attempt m).run account = some (.ok r, after) := by
  change (Except.ok <$> ExceptT.run m : StateT Account Option _).run account = _
  rw [StateT.run_map]
  unfold run at h
  rw [h]
  rfl

theorem run_attempt_none {m : Counting α} (h : m.run account = none) :
    (attempt m).run account = none := by
  change (Except.ok <$> ExceptT.run m : StateT Account Option _).run account = _
  rw [StateT.run_map]
  unfold run at h
  rw [h]
  rfl

/-- The counters while a production is under way, and after it. -/
theorem run_call_ok {m : Counting α} {a : α}
    (h : m.run (account.move fun now => { now with calls := now.calls + 1 }) =
      some (.ok a, after)) :
    (call m).run account =
      some (.ok a, (after.move fun now => { now with calls := now.calls - 1 }).noteReturn
        account.now) := by
  refine (run_bind_ok run_tally).trans ((run_bind_ok (run_move _)).trans ?_)
  refine (run_bind_ok (run_attempt h)).trans ((run_bind_ok (run_move _)).trans ?_)
  exact (run_bind_ok (run_noteReturn _)).trans (run_pure a)

theorem run_call_error {m : Counting α} {halt : Halt}
    (h : m.run (account.move fun now => { now with calls := now.calls + 1 }) =
      some (.error halt, after)) :
    (call m).run account =
      some (.error halt, after.move fun now => { now with calls := now.calls - 1 }) := by
  refine (run_bind_ok run_tally).trans ((run_bind_ok (run_move _)).trans ?_)
  refine (run_bind_ok (run_attempt h)).trans ((run_bind_ok (run_move _)).trans ?_)
  exact run_throw halt

theorem run_descend_ok {what : Construct} (h : account.now.depth < maxNesting) :
    (descend tokens what).run account =
      some (.ok (), account.move fun now => { now with depth := now.depth + 1 }) := by
  refine (run_bind_ok run_tally).trans ?_
  rw [if_neg (Nat.not_le_of_lt h)]
  exact run_move _

/-- The counters while a level is entered, and after it. -/
theorem run_nested_ok {what : Construct} {m : Counting α} {a : α}
    (hdepth : account.now.depth < maxNesting)
    (h : m.run ((account.move fun now => { now with depth := now.depth + 1 }).move
        fun now => { now with opened := now.opened + 1 }) = some (.ok a, after)) :
    (nested tokens what m).run account =
      some (.ok a, after.move fun now =>
        { now with depth := account.now.depth, opened := now.opened - 1 }) := by
  refine (run_bind_ok run_tally).trans ((run_bind_ok (run_descend_ok tokens hdepth)).trans ?_)
  refine (run_bind_ok (run_move _)).trans ((run_bind_ok (run_attempt h)).trans ?_)
  exact (run_bind_ok (run_move _)).trans (run_pure a)

theorem run_nested_error {what : Construct} {m : Counting α} {halt : Halt}
    (hdepth : account.now.depth < maxNesting)
    (h : m.run ((account.move fun now => { now with depth := now.depth + 1 }).move
        fun now => { now with opened := now.opened + 1 }) = some (.error halt, after)) :
    (nested tokens what m).run account =
      some (.error halt, after.move fun now =>
        { now with depth := account.now.depth, opened := now.opened - 1 }) := by
  refine (run_bind_ok run_tally).trans ((run_bind_ok (run_descend_ok tokens hdepth)).trans ?_)
  refine (run_bind_ok (run_move _)).trans ((run_bind_ok (run_attempt h)).trans ?_)
  exact (run_bind_ok (run_move _)).trans (run_throw halt)

end Run

end Counting

end Respell
