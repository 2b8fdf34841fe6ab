/-!
Doubles as exact binary fractions, and the double nearest to a fraction.

A finite double is `± significand * 2 ^ exponent`, so every question about its value is one about
natural numbers. `nearestBits` rounds a fraction to the closest double, a tie to the even one. The
bit patterns of the non-negative doubles increase with their values, so a rounded significand that
reaches the next power of two carries into the exponent by itself.
-/

namespace Reckon

/-- A finite double: `significand * 2 ^ exponent`, with a minus sign if `negative`. -/
structure Binary where
  negative : Bool
  significand : Nat
  exponent : Int
deriving Repr, DecidableEq

namespace Binary

/-- The weight of the sign bit. -/
def signWeight : Nat := Nat.pow 2 63

/-- The weight of the lowest exponent bit. -/
def unitWeight : Nat := Nat.pow 2 52

/-- The pattern of positive infinity, above that of every finite double. -/
def infinityBits : Nat := 0x7ff * unitWeight

/-- The exponent of the least positive double. -/
def leastExponent : Int := -1074

/-- The value of a finite pattern without its sign bit. -/
def ofMagnitude (negative : Bool) (magnitude : Nat) : Binary :=
  let biased := magnitude / unitWeight
  let fraction := magnitude % unitWeight
  if biased = 0 then ⟨negative, fraction, leastExponent⟩
  else ⟨negative, fraction + unitWeight, (biased : Int) - 1 + leastExponent⟩

/-- The exact value of a finite double. -/
def ofFloat? (x : Float) : Option Binary :=
  let bits := x.toBits.toNat
  let magnitude := bits % signWeight
  if magnitude < infinityBits then some (ofMagnitude (signWeight ≤ bits) magnitude) else none

/-- The numerator of the magnitude as a fraction. -/
def numerator (b : Binary) : Nat := b.significand * Nat.pow 2 b.exponent.toNat

/-- The denominator of the magnitude as a fraction, a power of two. -/
def denominator (b : Binary) : Nat := Nat.pow 2 (-b.exponent).toNat

/-- The quotient rounded to the nearest natural number, a tie to the even one. -/
def roundQuotient (num den : Nat) : Nat :=
  let quotient := num / den
  let twice := 2 * (num % den)
  if twice < den ∨ (twice = den ∧ quotient % 2 = 0) then quotient else quotient + 1

/-- The exponent `e` with `2 ^ e ≤ num / den < 2 ^ (e + 1)`. -/
def binaryExponent (num den : Nat) : Int :=
  let e : Int := (num.log2 : Int) - den.log2
  if den * Nat.pow 2 e.toNat ≤ num * Nat.pow 2 (-e).toNat then e else e - 1

/-- The pattern of the double nearest to `num / den`, infinity when that is too large. -/
def nearestBits (num den : Nat) : Nat :=
  if num = 0 then 0
  else
    let q := max (binaryExponent num den - 52) leastExponent
    let significand := roundQuotient (num * Nat.pow 2 (-q).toNat) (den * Nat.pow 2 q.toNat)
    min (significand + (q - leastExponent).toNat * unitWeight) infinityBits

/-- The double of a sign and a pattern without sign bit. -/
def floatOf (negative : Bool) (magnitude : Nat) : Float :=
  Float.ofBits (UInt64.ofNat (if negative then signWeight + magnitude else magnitude))

end Binary
end Reckon
