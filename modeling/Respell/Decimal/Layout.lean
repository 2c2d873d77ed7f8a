-- SUMMARY: Writing a number from its shortest digits.
import Respell.Decimal.Shortest

/-!
# Layout of numbers

Three kinds of output write numbers, each in a style of its own, which is one value of `Style`.
They share the two layouts: positional, and with an exponent.
-/

namespace Respell.Decimal

/-- The decisions of one way of writing numbers. -/
structure Style where
  /-- the choice between two shortest decimals that are equally near -/
  tie : Tie
  /-- whether the number with this exponent of its first digit is written without an exponent -/
  positional : Int → Bool
  /-- whether `.0` follows a number that is written positionally without a fraction -/
  pointZero : Bool
  /-- whether a negative zero shows its sign -/
  signedZero : Bool
  nan : String
  infinity : String

/-- A row of `n` zeros. -/
def zeros (n : Nat) : List Char :=
  List.replicate n '0'

/-- The digits with their point in place and no exponent. -/
def positionalLayout (pointZero : Bool) (s : Scientific) : List Char :=
  let point := s.exponent + 1
  if (s.digits.length : Int) ≤ point then
    s.digits ++ zeros (point - s.digits.length).toNat ++ if pointZero then ['.', '0'] else []
  else if 0 < point then s.digits.take point.toNat ++ '.' :: s.digits.drop point.toNat
  else '0' :: '.' :: (zeros (-point).toNat ++ s.digits)

/-- The first digit, a point and the others if there are any, and the signed exponent. -/
def exponentLayout (s : Scientific) : List Char :=
  let fraction := s.digits.drop 1
  s.digits.take 1 ++ (if fraction.isEmpty then [] else '.' :: fraction) ++
    'e' :: (if s.exponent < 0 then '-' else '+') :: Nat.toDigits 10 s.exponent.natAbs

namespace Style

/-- A positive number in this style. -/
def layout (style : Style) (s : Scientific) : List Char :=
  if style.positional s.exponent then positionalLayout style.pointZero s else exponentLayout s

/-- The text of a number. -/
def write (style : Style) (x : Float) : String :=
  match parts x with
  | .nan => style.nan
  | .infinite negative => if negative then "-" ++ style.infinity else style.infinity
  | .finite negative b =>
    if b.m = 0 then
      (if negative && style.signedZero then "-0" else "0") ++ if style.pointZero then ".0" else ""
    else
      let text := String.ofList (style.layout (b.shortest style.tie).scientific)
      if negative then "-" ++ text else text

end Style

end Respell.Decimal
