-- SUMMARY: A place in a list of tokens, parsers that move it, and what they complain about.
import Respell.Token

/-!
# Cursors and parsers

A cursor stands at a token of a list that ends with the end of the input, and never moves past the
first such token. A parser reads from a cursor and replies with a value and the cursor after it, or
with an error and the cursor at which the error arose.
-/

namespace Respell

/-! ## Errors -/

/-- What can be nested. -/
inductive Construct where
  | statement
  | expression
deriving Repr, DecidableEq

/-- What should have come next. -/
inductive Wanted where
  | symbol (symbol : Symbol)
  | expression
deriving Repr, DecidableEq

/-- What is wrong with a list of tokens. -/
inductive Complaint where
  /-- another token stands where something was wanted -/
  | wanted (what : Wanted) (found : Kind)
  /-- a definition without a name -/
  | wantedName (found : Kind)
  /-- the left side of an assignment is no variable -/
  | notAssignable
  /-- the tree would be too deep -/
  | tooDeep (what : Construct)

/-- A complaint and the place that it is about. -/
structure ParseError where
  complaint : Complaint
  span : Span

/-- How messages name what can be nested. -/
def Construct.describe : Construct → String
  | .statement => "statement"
  | .expression => "expression"

/-- How messages name what was wanted. -/
def Wanted.describe : Wanted → String
  | .symbol s => (Kind.symbol s).describe
  | .expression => "expression"

namespace ParseError

/-- The alternatives that were wanted. -/
def expected (e : ParseError) : List String :=
  match e.complaint with
  | .wanted what _ => [what.describe]
  | _ => []

/-- The token that stood in their place. -/
def found (e : ParseError) : Option String :=
  match e.complaint with
  | .wanted _ kind => some kind.describe
  | _ => none

/-- What happened, without the alternatives. -/
def summary (e : ParseError) : String :=
  match e.complaint with
  | .wanted _ _ => "unexpected token"
  | .wantedName kind =>
    "expected identifier after " ++ (Kind.keyword .letWord).describe ++ ", found " ++ kind.describe
  | .notAssignable => "invalid assignment target"
  | .tooDeep what => what.describe ++ " nested too deeply"

/-- The message of the error: the alternatives if there are any, and otherwise the summary. -/
def message (e : ParseError) : String :=
  if e.expected.isEmpty then e.summary
  else
    "expected " ++ " or ".intercalate e.expected ++
      match e.found with
      | some found => ", found " ++ found
      | none => ""

end ParseError

/-! ## Cursors -/

/-- A place in a list of tokens. -/
structure Cursor where
  /-- how many tokens stand before this place -/
  index : Nat
  /-- the span of the last of them; an empty one at the start -/
  previous : Span
  /-- the token at this place -/
  current : Token
  /-- the tokens after it -/
  later : List Token

namespace Cursor

/-- The start of a list of tokens. The end of the input is added where the list lacks it. -/
def ofTokens (tokens : List Token) : Cursor :=
  let stop := match tokens.getLast? with
    | some last => last.span.stop
    | none => 0
  let closing : Token := ⟨.eof, ⟨stop, stop⟩⟩
  let closed := match tokens.getLast? with
    | some last => last.kind.isEof
    | none => false
  match tokens with
  | [] => ⟨0, ⟨0, 0⟩, closing, []⟩
  | first :: rest => ⟨0, ⟨0, 0⟩, first, if closed then rest else rest ++ [closing]⟩

/-- The kind of the token at this place. -/
def kind (c : Cursor) : Kind :=
  c.current.kind

/-- The next place; the end of the input has none. -/
def advance (c : Cursor) : Cursor :=
  match c.later with
  | [] => c
  | next :: later =>
    if c.kind.isEof then c else ⟨c.index + 1, c.current.span, next, later⟩

theorem advance_of_isEof {c : Cursor} (h : c.kind.isEof = true) : c.advance = c := by
  unfold advance
  split
  · rfl
  · rw [if_pos h]

end Cursor

/-! ## Parsers -/

/-- What a parser answers. -/
inductive Reply (α : Type) where
  | ok (value : α) (next : Cursor)
  | error (error : ParseError) (place : Cursor)

/-- A reader of tokens. -/
def Parser (α : Type) : Type :=
  Cursor → Reply α

namespace Parser

/-- Answer a value without reading. -/
protected def pure {α : Type} (a : α) : Parser α :=
  fun c => .ok a c

/-- Read with `p`, and go on with what it answers. -/
protected def bind {α β : Type} (p : Parser α) (f : α → Parser β) : Parser β :=
  fun c =>
    match p c with
    | .ok a next => f a next
    | .error e place => .error e place

instance : Monad Parser where
  pure := Parser.pure
  bind := Parser.bind

@[simp] theorem pure_apply {α : Type} (a : α) (c : Cursor) : (pure a : Parser α) c = .ok a c := rfl

/-- A sequence of two parsers succeeds exactly when the second does where the first has stopped. -/
theorem bind_eq_ok_iff {α β : Type} {p : Parser α} {f : α → Parser β} {c after : Cursor} {b : β} :
    (p >>= f) c = .ok b after ↔ ∃ a mid, p c = .ok a mid ∧ f a mid = .ok b after := by
  change Parser.bind p f c = _ ↔ _
  unfold Parser.bind
  cases p c with
  | ok a next => simp [and_assoc]
  | error e place => simp

/-- A sequence of two parsers fails exactly when the first does, or the second where the first has
    stopped. -/
theorem bind_eq_error_iff {α β : Type} {p : Parser α} {f : α → Parser β} {c place : Cursor}
    {e : ParseError} :
    (p >>= f) c = .error e place ↔
      p c = .error e place ∨ ∃ a mid, p c = .ok a mid ∧ f a mid = .error e place := by
  change Parser.bind p f c = _ ↔ _
  unfold Parser.bind
  cases p c with
  | ok a next => simp [and_assoc]
  | error e place => simp

/-- The token at the cursor, which stays there. -/
def peek : Parser Token :=
  fun c => .ok c.current c

/-- The span of the last token that was read. -/
def previous : Parser Span :=
  fun c => .ok c.previous c

/-- Read one token. -/
def next : Parser Token :=
  fun c => .ok c.current c.advance

/-- Fail at the cursor, with the given span. -/
def failAt {α : Type} (complaint : Complaint) (span : Span) : Parser α :=
  fun c => .error ⟨complaint, span⟩ c

/-- Fail at the cursor, with the span of its token. -/
def fail {α : Type} (complaint : Complaint) : Parser α :=
  fun c => .error ⟨complaint, c.current.span⟩ c

/-- Complain that something else was wanted at the cursor. -/
def wanted {α : Type} (what : Wanted) : Parser α :=
  fun c => fail (.wanted what c.kind) c

/-- Complain that the tree would be too deep. -/
def tooDeep {α : Type} (what : Construct) : Parser α :=
  fail (.tooDeep what)

/-- Whether the given symbol stands at the cursor. -/
def sees (s : Symbol) : Parser Bool :=
  fun c => .ok (c.kind.isSymbol s) c

/-- Read the given symbol if it stands at the cursor. -/
def eat (s : Symbol) : Parser Bool :=
  fun c => if c.kind.isSymbol s then .ok true c.advance else .ok false c

/-- Read the given symbol, which has to stand at the cursor. -/
def expect (s : Symbol) : Parser Span :=
  fun c => if c.kind.isSymbol s then .ok c.current.span c.advance else wanted (.symbol s) c

end Parser

end Respell
