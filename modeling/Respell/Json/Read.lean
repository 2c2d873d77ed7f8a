-- SUMMARY: Reading strings, names and numbers of JSON from the front of a text.
import Respell.Decimal.Binary

/-!
# Pieces of JSON

The readers here take one piece off the front of a text and give back what follows it. They do not
look further than the piece goes, so a fault behind it is found only by whoever reads on.
-/

namespace Respell.Json

/-- Drop the blanks that JSON allows between its pieces. -/
def skipBlanks (cs : List Char) : List Char :=
  cs.dropWhile fun c => c == ' ' || c == '\n' || c == '\t' || c == '\r'

/-- Drop a word that has to stand at the front. -/
def dropWord? (word : List Char) (cs : List Char) : Option (List Char) :=
  if word.isPrefixOf cs then some (cs.drop word.length) else none

/-! ## Strings -/

/-- The value of a hexadecimal digit, of either case. -/
def hexDigit? (c : Char) : Option Nat :=
  if '0' ≤ c ∧ c ≤ '9' then some (c.toNat - '0'.toNat)
  else if 'a' ≤ c ∧ c ≤ 'f' then some (c.toNat - 'a'.toNat + 10)
  else if 'A' ≤ c ∧ c ≤ 'F' then some (c.toNat - 'A'.toNat + 10)
  else none

/-- The number that four hexadecimal digits stand for. -/
def hexNumber? (a b c d : Char) : Option Nat := do
  return 4096 * (← hexDigit? a) + 256 * (← hexDigit? b) + 16 * (← hexDigit? c) + (← hexDigit? d)

/-- Whether a number is the first half of a pair that stands for one character. -/
def isLeading (n : Nat) : Bool :=
  0xD800 ≤ n && n ≤ 0xDBFF

/-- Whether a number is the second half of such a pair. -/
def isTrailing (n : Nat) : Bool :=
  0xDC00 ≤ n && n ≤ 0xDFFF

/-- The character after a backslash, if a single letter names it. -/
def shortEscape? (c : Char) : Option Char :=
  match c with
  | '"' => some '"'
  | '\\' => some '\\'
  | '/' => some '/'
  | 'b' => some '\x08'
  | 'f' => some '\x0c'
  | 'n' => some '\n'
  | 'r' => some '\r'
  | 't' => some '\t'
  | _ => none

/-- The character that an escape stands for, and what follows; `cs` starts after the backslash. A
    character beyond sixteen bits is written as a pair of numbers, and neither half of a pair may
    stand alone. -/
def readEscape? (cs : List Char) : Option (Char × List Char) :=
  match cs with
  | 'u' :: a :: b :: c :: d :: rest =>
    match hexNumber? a b c d with
    | none => none
    | some n =>
      if isTrailing n then none
      else if isLeading n then
        match rest with
        | '\\' :: 'u' :: a :: b :: c :: d :: rest =>
          match hexNumber? a b c d with
          | none => none
          | some m =>
            if isTrailing m then
              some (Char.ofNat (0x10000 + 0x400 * (n - 0xD800) + (m - 0xDC00)), rest)
            else none
        | _ => none
      else some (Char.ofNat n, rest)
  | c :: rest => (shortEscape? c).map fun e => (e, rest)
  | [] => none

/-- The characters of a string up to its second quote, and what follows. Every character takes at
    least one, so `count` is enough when it is the length of the text. -/
def readCharsWithin : Nat → List Char → Option (List Char × List Char)
  | 0, _ => none
  | _ + 1, [] => none
  | count + 1, c :: cs =>
    if c = '"' then some ([], cs)
    else if c = '\\' then
      match readEscape? cs with
      | none => none
      | some (e, rest) => (readCharsWithin count rest).map fun r => (e :: r.1, r.2)
    else if c.toNat < 0x20 then none
    else (readCharsWithin count cs).map fun r => (c :: r.1, r.2)

/-- A string and what follows; `cs` starts after the first quote. -/
def readString? (cs : List Char) : Option (String × List Char) :=
  (readCharsWithin (cs.length + 1) cs).map fun r => (String.ofList r.1, r.2)

/-! ## Numbers -/

/-- A number as it is read. -/
inductive Number where
  | integer (value : Int)
  | real (value : Float)

/-- Whether a significand still fits its 64 bits. -/
def fits (n : Nat) : Bool :=
  n ≤ 0xFFFFFFFFFFFFFFFF

/-- Take digits into a significand as long as it fits. The answer is the significand, how many
    digits were taken, and what follows them. -/
def takeDigits (significand taken : Nat) : List Char → Nat × Nat × List Char
  | [] => (significand, taken, [])
  | c :: cs =>
    if c.isDigit then
      let more := 10 * significand + (c.toNat - '0'.toNat)
      if fits more then takeDigits more (taken + 1) cs else (significand, taken, c :: cs)
    else (significand, taken, c :: cs)

/-- The product of `significand` and `10^exponent`, computed with one rounded power of ten; none if
    it is too great. An exponent below the range of powers is reached in two divisions. -/
def scale? (significand : Nat) (exponent : Int) : Option Float :=
  let x := Float.ofNat significand
  let power (n : Nat) : Float := Float.ofScientific 1 false n
  if significand = 0 then some 0
  else if 308 < exponent then none
  else if 0 ≤ exponent then
    let y := x * power exponent.toNat
    if y.isInf then none else some y
  else if -308 ≤ exponent then some (x / power (-exponent).toNat)
  else if -616 ≤ exponent then some (x / power 308 / power (-exponent - 308).toNat)
  else some 0

/-- The exponent part of a number after its `e`, added to `exponent`. -/
def readExponent? (negative : Bool) (significand : Nat) (exponent : Int) (cs : List Char) :
    Option Float :=
  let down := cs.head? == some '-'
  let digits := if down || cs.head? == some '+' then cs.drop 1 else cs
  let run := digits.takeWhile Char.isDigit
  if run.isEmpty then none
  else
    let n := run.foldl (fun n c => 10 * n + (c.toNat - '0'.toNat)) 0
    let total : Int := if down then exponent - n else exponent + n
    (scale? significand total).map fun x => if negative then -x else x

/-- The fraction of a number after its point, with digits beyond 64 bits left out. -/
def readFraction? (negative : Bool) (significand : Nat) (exponent : Int) (cs : List Char) :
    Option Float :=
  let (significand', taken, rest) := takeDigits significand 0 cs
  if taken = 0 && !(rest.head?.any Char.isDigit) then none
  else
    let exponent' := exponent - taken
    match rest.dropWhile Char.isDigit with
    | c :: rest =>
      if c == 'e' || c == 'E' then readExponent? negative significand' exponent' rest
      else (scale? significand' exponent').map fun x => if negative then -x else x
    | [] => (scale? significand' exponent').map fun x => if negative then -x else x

/-- What follows the digits of an integer, of which `dropped` did not fit. -/
def readTail? (negative : Bool) (significand dropped : Nat) (cs : List Char) : Option Number :=
  let real (x : Option Float) : Option Number := x.map .real
  let whole : Option Number :=
    if dropped > 0 then
      real ((scale? significand dropped).map fun x => if negative then -x else x)
    else if !negative then some (.integer significand)
    else if significand = 0 || 0x8000000000000000 < significand then
      some (.real (-(Float.ofNat significand)))
    else some (.integer (-significand))
  match cs with
  | c :: rest =>
    if c = '.' then real (readFraction? negative significand dropped rest)
    else if c == 'e' || c == 'E' then real (readExponent? negative significand dropped rest)
    else whole
  | [] => whole

/-- The number at the front of a text, without its sign. An integer of 64 bits stays one, and so
    does a negative one of 63; any other number is real. None if there is no number, or if it is
    too great. -/
def readNumber? (negative : Bool) (cs : List Char) : Option Number :=
  match cs with
  | c :: rest =>
    if c = '0' then
      if rest.head?.any Char.isDigit then none else readTail? negative 0 0 rest
    else if c.isDigit then
      let (significand, _, after) := takeDigits 0 0 cs
      let extra := after.takeWhile Char.isDigit
      readTail? negative significand extra.length (after.dropWhile Char.isDigit)
    else none
  | [] => none

end Respell.Json
