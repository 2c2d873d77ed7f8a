-- SUMMARY: Running a source text from beginning to end, and what can go wrong on the way.
import Respell.Token.Lexer
import Respell.Program.Parser
import Respell.Eval

/-!
# Scripts

A script is lexed, parsed and executed. Each stage stops at its first error, and a later stage runs
only if the one before it succeeded. The report also counts what each finished stage produced.
-/

namespace Respell

/-- The error of the stage that failed. -/
inductive ScriptError where
  | lex (error : LexError)
  | parse (error : ParseError)
  | runtime (error : RuntimeError)

namespace ScriptError

/-- Where the error is. -/
def span : ScriptError → Span
  | .lex e => e.span
  | .parse e => e.span
  | .runtime e => e.span

/-- The message of the error, with the name of its stage. -/
def message : ScriptError → String
  | .lex e => "Lex error: " ++ e.message
  | .parse e => "Parse error: " ++ e.message
  | .runtime e => "Runtime error: " ++ e.message

end ScriptError

/-- How a script ended. -/
inductive Ending where
  /-- the value of the last statement, and the global scope -/
  | finished (value : Value) (globals : Scope)
  | failed (error : ScriptError)
  /-- the steps ran out -/
  | cut

/-- What a script did. -/
structure Report where
  ending : Ending
  /-- the values that were printed, in order -/
  printed : Array Value
  /-- how many tokens there are, if the text could be lexed -/
  tokens : Option Nat
  /-- how many statements there are, if the tokens could be parsed -/
  statements : Option Nat

namespace Script

/-- More steps than a computer takes in a year. -/
def patience : Nat := 1_000_000_000_000_000

/-- The report on a program that was executed. -/
def ofRun (tokens statements : Nat) : Run → Report
  | .done v m => ⟨.finished v m.env.globals, m.printed, tokens, statements⟩
  | .failed e m => ⟨.failed (.runtime e), m.printed, tokens, statements⟩
  | .cut m => ⟨.cut, m.printed, tokens, statements⟩

/-- Run a source text within a number of steps. -/
def run (steps : Nat) (table : Table) (source : String) : Report :=
  match tokenize table source with
  | .error e => ⟨.failed (.lex e), #[], none, none⟩
  | .ok tokens =>
    match Program.parse tokens with
    | .error e => ⟨.failed (.parse e), #[], some tokens.length, none⟩
    | .ok program =>
      ofRun tokens.length program.statements.length (Machine.start.run steps program)

end Script

end Respell
