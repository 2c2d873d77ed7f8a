-- SUMMARY: Messages about a source text, and the one that each error gives rise to.
import Respell.Script
import Respell.Text.Escape

/-!
# Diagnostics

A diagnostic is a message with labels, each of which marks a span of the source, and notes that
follow at the end.
-/

namespace Respell

/-- How bad it is. -/
inductive Severity where
  | error
  | warning
deriving Repr, DecidableEq

/-- How a severity is written. -/
def Severity.text : Severity → String
  | .error => "error"
  | .warning => "warning"

/-- A marked span and what is said about it, which may be nothing. -/
structure Label where
  span : Span
  message : String
deriving Repr, DecidableEq

/-- A message about a source text. -/
structure Diagnostic where
  severity : Severity
  code : Option String
  message : String
  labels : List Label
  notes : List String
deriving Repr, DecidableEq

namespace Diagnostic

/-- A warning without a code. -/
def warning (message : String) : Diagnostic :=
  ⟨.warning, none, message, [], []⟩

/-- An error with a code that marks one span. -/
def errorAt (code message : String) (span : Span) (label : String) : Diagnostic :=
  ⟨.error, some code, message, [⟨span, label⟩], []⟩

/-- Add a note. -/
def withNote (d : Diagnostic) (note : String) : Diagnostic :=
  { d with notes := d.notes ++ [note] }

/-- Add a note that tells what to do. -/
def withHelp (d : Diagnostic) (help : String) : Diagnostic :=
  d.withNote ("help: " ++ help)

end Diagnostic

/-- The diagnostic of a text that has no tokens. -/
def LexError.diagnostic : LexError → Diagnostic
  | .invalidCharacter char span =>
    .errorAt "E0001" ("invalid character `" ++ Text.showChar char ++ "`") span
      "not part of the language"
  | .unterminatedString span =>
    (Diagnostic.errorAt "E0002" "unterminated string" span "string starts here").withHelp
      "add a closing `\"`"

/-- The diagnostic of tokens that make no program. -/
def ParseError.diagnostic (e : ParseError) : Diagnostic :=
  let d := Diagnostic.errorAt "E0101" e.message e.span ""
  match e.expected with
  | [only] => d.withHelp ("expected " ++ only ++ " here")
  | _ => d

/-- The diagnostic of a program that stopped. -/
def RuntimeError.diagnostic : RuntimeError → Diagnostic
  | .undefinedVariable name span =>
    .errorAt "E0201" ("undefined variable `" ++ name ++ "`") span
      "not found in any enclosing scope"
  | .typeError mismatch span => .errorAt "E0202" ("type error: " ++ mismatch.describe) span ""
  | .divisionByZero span => .errorAt "E0205" "division by zero" span "divisor evaluates to 0"

/-- The diagnostic of a script that failed. -/
def ScriptError.diagnostic : ScriptError → Diagnostic
  | .lex e => e.diagnostic
  | .parse e => e.diagnostic
  | .runtime e => e.diagnostic

end Respell
