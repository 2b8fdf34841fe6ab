import Reckon.Number.Decimal
import Reckon.Unicode.Blank

/-!
Written numbers: an optional sign, digits with an optional fraction, an optional exponent.

`Numeral.scan?` takes the longest such prefix of a text. All readers of numbers go through it, and
differ only in what they allow before and after the numeral.
-/

namespace Reckon

/-- The parts of a written number. -/
structure Numeral where
  negative : Bool
  whole : List Char
  fraction : List Char
  exponent : Int
deriving Repr, DecidableEq

namespace Numeral

/-- The exact value without the sign. -/
def decimal (n : Numeral) : Decimal :=
  ⟨Decimal.ofDigits (n.whole ++ n.fraction), n.exponent - n.fraction.length⟩

/-- The nearest double. -/
def toFloat (n : Numeral) : Float := n.decimal.toFloat n.negative

/-- A sign, if one stands first. -/
def scanSign : List Char → Bool × List Char
  | '-' :: rest => (true, rest)
  | '+' :: rest => (false, rest)
  | cs => (false, cs)

/-- The digits after a point. A point that follows digits counts even if none follow it. -/
def scanFraction (whole cs : List Char) : List Char × List Char :=
  match cs with
  | '.' :: rest =>
    let digits := rest.takeWhile Char.isDigit
    if whole.isEmpty && digits.isEmpty then ([], cs) else (digits, rest.dropWhile Char.isDigit)
  | _ => ([], cs)

/-- An exponent, which needs a digit. -/
def scanExponent (cs : List Char) : Int × List Char :=
  match cs with
  | c :: rest =>
    if c = 'e' ∨ c = 'E' then
      let (negative, unsigned) := scanSign rest
      let digits := unsigned.takeWhile Char.isDigit
      if digits.isEmpty then (0, cs)
      else
        let size : Int := Decimal.ofDigits digits
        (if negative then -size else size, unsigned.dropWhile Char.isDigit)
    else (0, cs)
  | [] => (0, [])

/-- The longest numeral at the start of a text, and what follows it. -/
def scan? (cs : List Char) : Option (Numeral × List Char) :=
  let (negative, unsigned) := scanSign cs
  let whole := unsigned.takeWhile Char.isDigit
  let (fraction, rest) := scanFraction whole (unsigned.dropWhile Char.isDigit)
  if whole.isEmpty && fraction.isEmpty then none
  else
    let (exponent, rest) := scanExponent rest
    some (⟨negative, whole, fraction, exponent⟩, rest)

end Numeral

/-- Blanks that may stand before a numeric prefix. -/
def isNumericBlank (c : Char) : Bool := c == ' ' || c == '\t' || c == '\n' || c == '\r'

/-- The value of the longest numeral at the start of a text, after blanks. -/
def readNumberPrefix? (cs : List Char) : Option Float :=
  (Numeral.scan? (cs.dropWhile isNumericBlank)).map (·.1.toFloat)

/-- Positive or negative infinity. -/
def infinity (negative : Bool) : Float := Binary.floatOf negative Binary.infinityBits

/-- Not a number. -/
def notANumber : Float := 0.0 / 0.0

/-- The value of a text that is a numeral as a whole, or names infinity or not-a-number. -/
def readNumber? (cs : List Char) : Option Float :=
  match Numeral.scan? cs with
  | some (n, []) => some n.toFloat
  | some _ => none
  | none =>
    let (negative, word) := Numeral.scanSign cs
    let word := word.map Char.toLower
    if word = "inf".toList ∨ word = "infinity".toList then some (infinity negative)
    else if word = "nan".toList then some notANumber
    else none

end Reckon
