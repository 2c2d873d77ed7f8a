-- SUMMARY: Symbols and tokens of the language, and how messages name them.
import Respell.Span
import Respell.Decimal.Layout
import Respell.Keyword.Role

/-!
# Tokens

A token is a kind with the span of its text. Keywords are known by their role, since their spelling
is not fixed; messages name them by it too.
-/

namespace Respell

/-- The operators and delimiters. -/
inductive Symbol where
  | equal
  | notEqual
  | both
  | either
  | plus
  | minus
  | star
  | slash
  | less
  | greater
  | bang
  | assign
  | semicolon
  | leftParen
  | rightParen
  | leftBrace
  | rightBrace
deriving Repr, DecidableEq, Inhabited

namespace Symbol

/-- Every symbol; those of two characters go before the others. -/
def all : List Symbol :=
  [.equal, .notEqual, .both, .either, .plus, .minus, .star, .slash, .less, .greater, .bang,
   .assign, .semicolon, .leftParen, .rightParen, .leftBrace, .rightBrace]

/-- How a symbol is written. -/
def chars : Symbol → List Char
  | .equal => ['=', '=']
  | .notEqual => ['!', '=']
  | .both => ['&', '&']
  | .either => ['|', '|']
  | .plus => ['+']
  | .minus => ['-']
  | .star => ['*']
  | .slash => ['/']
  | .less => ['<']
  | .greater => ['>']
  | .bang => ['!']
  | .assign => ['=']
  | .semicolon => [';']
  | .leftParen => ['(']
  | .rightParen => [')']
  | .leftBrace => ['{']
  | .rightBrace => ['}']

/-- The text of a symbol. -/
def text (s : Symbol) : String :=
  String.ofList s.chars

/-- The symbol with the given text. -/
def ofText? (t : String) : Option Symbol :=
  all.find? fun s => s.text == t

/-- The symbol that a text starts with, the longer one if there are two. -/
def atStart? (cs : List Char) : Option Symbol :=
  all.find? fun s => s.chars.isPrefixOf cs

theorem mem_all (s : Symbol) : s ∈ all := by
  cases s <;> decide

theorem chars_ne_nil (s : Symbol) : s.chars ≠ [] := by
  cases s <;> decide

theorem chars_of_atStart? {cs : List Char} {s : Symbol} (h : atStart? cs = some s) :
    s.chars <+: cs := by
  unfold atStart? at h
  simpa using List.find?_some h

end Symbol

/-- What a token is. -/
inductive Kind where
  | keyword (role : Role)
  | word (name : String)
  | number (value : Float)
  | text (contents : String)
  | symbol (symbol : Symbol)
  | eof
deriving Inhabited

/-- Literals in messages are written positionally whatever their size, and keep the sign of zero. -/
def literalStyle : Decimal.Style where
  tie := .up
  positional := fun _ => true
  pointZero := false
  signedZero := true
  nan := "NaN"
  infinity := "inf"

namespace Kind

/-- Whether the kind is the given symbol. -/
def isSymbol (k : Kind) (s : Symbol) : Bool :=
  match k with
  | .symbol t => t == s
  | _ => false

/-- Whether the kind is the keyword of the given role. -/
def isKeyword (k : Kind) (r : Role) : Bool :=
  match k with
  | .keyword t => t == r
  | _ => false

/-- Whether the kind is the end of the input. -/
def isEof : Kind → Bool
  | .eof => true
  | _ => false

/-- How messages name a token. -/
def describe : Kind → String
  | .keyword role => role.word ++ " keyword"
  | .word name => if name.isEmpty then "identifier" else "identifier `" ++ name ++ "`"
  | .number value => "number `" ++ literalStyle.write value ++ "`"
  | .text _ => "string literal"
  | .symbol s => "`" ++ s.text ++ "`"
  | .eof => "end of input"

end Kind

/-- A token: a kind and where its text stands. -/
structure Token where
  kind : Kind
  span : Span
deriving Inhabited

end Respell
