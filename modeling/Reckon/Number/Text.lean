import Reckon.Number.Arithmetic
import Reckon.Number.Decimal

/-!
How numbers are written.

`plainText` is the shortest decimal that reads back, never with an exponent. `numberText` is the form
that expressions print: small whole numbers as integers. `jsonNumberText?` is the form of JSON documents:
an exponent outside the middle range, always a sign of being a fraction, no text for what is not
finite.
-/

namespace Reckon

/-- The digits of a finite double in the layout of a decimal, after its sign. -/
def finiteText (tie : Decimal.Tie) (layout : Decimal → List Char) (x : Float) : List Char :=
  let bits := x.toBits.toNat
  let digits := layout (Decimal.shortest tie (bits % Binary.signWeight))
  if Binary.signWeight ≤ bits then '-' :: digits else digits

/-- The shortest decimal that reads back, without an exponent. -/
def plainText (x : Float) : List Char :=
  if x.isNaN then "NaN".toList
  else if x.isInf then if x < 0 then "-inf".toList else "inf".toList
  else if x == 0 then if Binary.signWeight ≤ x.toBits.toNat then "-0".toList else "0".toList
  else finiteText .up Decimal.positional x

/-- The digits of an integer, after its sign. -/
def integerText (n : Int) : List Char :=
  if n < 0 then '-' :: Decimal.digits n.natAbs else Decimal.digits n.natAbs

/-- The double is an integer of at most fifteen digits. -/
def isShortWhole (x : Float) : Bool :=
  match Binary.ofFloat? x with
  | some b => b.numerator % b.denominator == 0 && b.wholePart < Nat.pow 10 15
  | none => false

/-- The text of a number in expressions: the integer that it is, and otherwise the shortest decimal. -/
def numberText (x : Float) : List Char :=
  if isShortWhole x then integerText (toInteger x) else plainText x

/-- The text of a number in JSON documents. -/
def jsonNumberText? (x : Float) : Option (List Char) :=
  if x.isNaN || x.isInf then none
  else if x == 0 then
    some (if Binary.signWeight ≤ x.toBits.toNat then "-0.0".toList else "0.0".toList)
  else some (finiteText .even Decimal.scientific x)

end Reckon
