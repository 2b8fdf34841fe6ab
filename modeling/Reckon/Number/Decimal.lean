import Reckon.Number.Binary

/-!
Decimal fractions: reading one as a double, and the shortest one that reads back as a given double.

The shortest decimal of a double has the fewest digits that read back as it, and among those is the
nearest. `shortest` tries the decimal grids from the coarsest on, and on each grid only the two
points beside the value, since a grid with a point that reads back has such a neighbour too.
-/

namespace Reckon

/-- The number `coefficient * 10 ^ exponent`. -/
structure Decimal where
  coefficient : Nat
  exponent : Int
deriving Repr, DecidableEq

namespace Decimal

/-- The decimal digits of a number, most significant first. -/
def digits (n : Nat) : List Char := Nat.toDigits 10 n

/-- The value of a run of decimal digits. -/
def ofDigits (ds : List Char) : Nat :=
  ds.foldl (fun n d => 10 * n + (d.toNat - '0'.toNat)) 0

/-- The pattern of the nearest double. Far outside the range of doubles only the number of digits
is looked at, so that no power of ten larger than needed is formed. -/
def toBits (d : Decimal) : Nat :=
  if d.coefficient = 0 then 0
  else
    let top := (digits d.coefficient).length + d.exponent
    if 310 < top then Binary.infinityBits
    else if top < -330 then 0
    else Binary.nearestBits (d.coefficient * Nat.pow 10 d.exponent.toNat)
      (Nat.pow 10 (-d.exponent).toNat)

/-- The nearest double. -/
def toFloat (negative : Bool) (d : Decimal) : Float := Binary.floatOf negative d.toBits

/-- Zeros at the end of the coefficient move into the exponent. -/
def strip : Nat → Decimal → Decimal
  | 0, d => d
  | fuel + 1, d =>
    if d.coefficient ≠ 0 ∧ d.coefficient % 10 = 0 then
      strip fuel ⟨d.coefficient / 10, d.exponent + 1⟩
    else d

/-- The same number with the least coefficient. -/
def normalize (d : Decimal) : Decimal := strip (digits d.coefficient).length d

/-- Which of two equally near decimals is written. -/
inductive Tie where
  | up
  | even
deriving Repr, DecidableEq

/-- The least `k` with `num / den < 10 ^ k`, for a fraction that is no power of ten below one. -/
def decimalExponent (num den : Nat) : Int :=
  if den ≤ num then (digits (num / den)).length
  else 1 - ((digits (den / num)).length : Int)

/-- The nearest point of the grid `10 ^ j` beside `num / den` that reads back as `bits`. -/
def gridPoint? (tie : Tie) (bits num den : Nat) (j : Int) : Option Decimal :=
  let n := num * Nat.pow 10 (-j).toNat
  let d := den * Nat.pow 10 j.toNat
  let below : Decimal := ⟨n / d, j⟩
  let above : Decimal := ⟨n / d + 1, j⟩
  let twice := 2 * (n % d)
  let nearAbove := d < twice ∨ (twice = d ∧ (tie = .up ∨ below.coefficient % 2 = 1))
  match below.toBits == bits, above.toBits == bits with
  | true, true => some (if nearAbove then above else below)
  | true, false => some below
  | false, true => some above
  | false, false => none

/-- All digits of a binary fraction. -/
def exact (b : Binary) : Decimal :=
  let places := (-b.exponent).toNat
  ⟨b.numerator * Nat.pow 5 places, -(places : Int)⟩

/-- The shortest decimal that reads back as the double of this magnitude. -/
def shortest (tie : Tie) (magnitude : Nat) : Decimal :=
  let b := Binary.ofMagnitude false magnitude
  let k := decimalExponent b.numerator b.denominator
  let found := (List.range 17).findSome? fun (i : Nat) =>
    gridPoint? tie magnitude b.numerator b.denominator (k - 1 - i)
  normalize (found.getD (exact b))

/-- The digits with the point in its place: never an exponent. -/
def positional (d : Decimal) : List Char :=
  let ds := digits d.coefficient
  if 0 ≤ d.exponent then ds ++ List.replicate d.exponent.toNat '0'
  else
    let places := (-d.exponent).toNat
    if places < ds.length then ds.take (ds.length - places) ++ '.' :: ds.drop (ds.length - places)
    else '0' :: '.' :: List.replicate (places - ds.length) '0' ++ ds

/-- Positional from `1e-5` up to below `1e16`, always with a fraction, and with a signed exponent
outside that range. -/
def scientific (d : Decimal) : List Char :=
  let ds := digits d.coefficient
  let point := (ds.length : Int) + d.exponent
  if -5 < point ∧ point ≤ 16 then
    if 0 ≤ d.exponent then d.positional ++ ['.', '0'] else d.positional
  else
    let mantissa := match ds with
      | first :: second :: rest => first :: '.' :: second :: rest
      | _ => ds
    let e := point - 1
    mantissa ++ 'e' :: (if 0 ≤ e then '+' else '-') :: digits e.natAbs

end Decimal
end Reckon
