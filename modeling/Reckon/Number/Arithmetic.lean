import Reckon.Number.Binary

/-!
Exact operations on doubles: remainder, truncation, conversion to bounded integers, and the extremes
of a list.
-/

namespace Reckon

/-- The magnitude of a finite double without its fraction. -/
def Binary.wholePart (b : Binary) : Nat := b.numerator / b.denominator

/-- The remainder of the division that truncates its quotient, with the sign of the dividend. -/
def remainder (x y : Float) : Float :=
  match Binary.ofFloat? x, Binary.ofFloat? y with
  | some a, some b =>
    if b.significand = 0 then 0.0 / 0.0
    else
      let e := min a.exponent b.exponent
      let m := a.significand * Nat.pow 2 (a.exponent - e).toNat
      let n := b.significand * Nat.pow 2 (b.exponent - e).toNat
      Binary.floatOf a.negative
        (Binary.nearestBits (m % n * Nat.pow 2 e.toNat) (Nat.pow 2 (-e).toNat))
  | some _, none => if y.isNaN then y else x
  | none, _ => 0.0 / 0.0

/-- The number without its fraction. -/
def truncate (x : Float) : Float := if x < 0 then x.ceil else x.floor

/-- The least integer of 64 bits with sign. -/
def leastInteger : Int := -Nat.pow 2 63

/-- The greatest integer of 64 bits with sign. -/
def greatestInteger : Int := Nat.pow 2 63 - 1

/-- The truncated number, moved to the nearest integer of 64 bits; not-a-number gives zero. -/
def toInteger (x : Float) : Int :=
  match Binary.ofFloat? x with
  | some b =>
    let n : Int := if b.negative then -(b.wholePart : Int) else b.wholePart
    max leastInteger (min n greatestInteger)
  | none => if x.isNaN then 0 else if x < 0 then leastInteger else greatestInteger

/-- The smaller number; one that is not a number is passed over. -/
def lesser (x y : Float) : Float :=
  if x.isNaN then y else if y.isNaN then x else if y < x then y else x

/-- The greater number; one that is not a number is passed over. -/
def greater (x y : Float) : Float :=
  if x.isNaN then y else if y.isNaN then x else if x < y then y else x

end Reckon
