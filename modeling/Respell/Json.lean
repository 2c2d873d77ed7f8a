-- SUMMARY: Writing values and scopes as JSON.
import Respell.Scope

/-!
# JSON output

A scope is written as an object with its names in order. A number that is an integer of at most 53
bits is written as one; other finite numbers are written in the shortest form that reads back, and
what JSON cannot write as a number becomes null.
-/

namespace Respell.Json

/-- Numbers are written positionally from `1e-5` up to `1e16`, with a fraction at all events. -/
def numberStyle : Decimal.Style where
  tie := .toEven
  positional := fun e => -5 ≤ e && e ≤ 15
  pointZero := true
  signedZero := true
  nan := "null"
  infinity := "null"

/-- The greatest number of fifty-three bits: up to it every integer is a number. -/
def maxExact : Nat := 0x1FFFFFFFFFFFFF

/-- The integer that a finite number is, if it is one and not too great. -/
def exactInt? (x : Float) : Option Int :=
  match Decimal.parts x with
  | .finite negative b =>
    match b.toNat? with
    | some n => if n ≤ maxExact then some (if negative then -n else n) else none
    | none => none
  | _ => none

/-- A number. -/
def number (x : Float) : String :=
  match exactInt? x, Decimal.parts x with
  | some i, _ => toString i
  | none, .finite _ _ => numberStyle.write x
  | none, _ => "null"

/-- A character inside a string. -/
def escape (c : Char) : String :=
  match c with
  | '"' => "\\\""
  | '\\' => "\\\\"
  | '\x08' => "\\b"
  | '\t' => "\\t"
  | '\n' => "\\n"
  | '\x0c' => "\\f"
  | '\r' => "\\r"
  | c =>
    if c.toNat < 0x20 then
      let digits := Nat.toDigits 16 c.toNat
      "\\u" ++ String.ofList (List.replicate (4 - digits.length) '0' ++ digits)
    else c.toString

/-- A string. -/
def string (s : String) : String :=
  "\"" ++ String.join (s.toList.map escape) ++ "\""

/-- A value. -/
def value : Value → String
  | .null => "null"
  | .bool b => if b then "true" else "false"
  | .number x => number x
  | .text s => string s

/-- A scope on one line. -/
def compact (s : Scope) : String :=
  "\x7b" ++ ",".intercalate (s.entries.map fun e => string e.1 ++ ":" ++ value e.2) ++ "\x7d"

/-- A scope with a line for each name. -/
def pretty (s : Scope) : String :=
  if s.entries.isEmpty then "\x7b\x7d"
  else
    "\x7b\n" ++
      ",\n".intercalate (s.entries.map fun e => "  " ++ string e.1 ++ ": " ++ value e.2) ++
      "\n\x7d"

end Respell.Json
