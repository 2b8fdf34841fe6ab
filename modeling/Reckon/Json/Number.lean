import Reckon.Number.Decimal

/-!
Numbers of JSON documents.

An integer that 64 bits can hold is read exactly and then rounded. Every other number is read as a
significand of 64 bits, which leaves out the digits that no longer fit, and is then scaled by a power of
ten with one multiplication or division. A number too large for a double is an error.
-/

namespace Reckon.Json

/-- The digits of a number that fit into 64 bits, and the exponent of ten that the others leave. -/
structure Significand where
  value : Nat
  exponent : Int
  full : Bool
deriving Repr, DecidableEq

namespace Significand

def greatest : Nat := Nat.pow 2 64 - 1

/-- One more digit of the whole part. -/
def pushWhole (s : Significand) (d : Nat) : Significand :=
  if s.full ∨ greatest < 10 * s.value + d then { s with exponent := s.exponent + 1, full := true }
  else { s with value := 10 * s.value + d }

/-- One more digit of the fraction; the first that does not fit ends it. -/
def pushFraction (s : Significand) (d : Nat) : Significand :=
  if s.full ∨ greatest < 10 * s.value + d then { s with full := true }
  else { s with value := 10 * s.value + d, exponent := s.exponent - 1 }

end Significand

/-- The double nearest to a power of ten. -/
def powerOfTen (n : Nat) : Float := Decimal.toFloat false ⟨1, n⟩

/-- Divides by powers of ten until the exponent is within the range of doubles. -/
def scaleDown (fuel : Nat) (x : Float) (exponent : Int) : Float :=
  match fuel with
  | 0 => x
  | fuel + 1 =>
    if -308 ≤ exponent then x / powerOfTen (-exponent).toNat
    else if x == 0.0 then x
    else scaleDown fuel (x / powerOfTen 308) (exponent + 308)

/-- A significand times a power of ten, none if that is too large. -/
def scale? (value : Nat) (exponent : Int) : Option Float :=
  let x := Float.ofNat value
  if 0 ≤ exponent then
    if x == 0.0 then some x
    else if 308 < exponent then none
    else
      let scaled := x * powerOfTen exponent.toNat
      if scaled.isInf then none else some scaled
  else some (scaleDown 4 x (max exponent (-1000)))

def digitValue (c : Char) : Nat := c.toNat - '0'.toNat

/-- The exponent of a number and what follows it, none if it has no digits. -/
def readExponent? (cs : List Char) : Option (Int × List Char) :=
  let (negative, unsigned) := match cs with
    | '+' :: rest => (false, rest)
    | '-' :: rest => (true, rest)
    | _ => (false, cs)
  let digits := unsigned.takeWhile Char.isDigit
  if digits.isEmpty then none
  else
    let size : Int := Decimal.ofDigits digits
    some (if negative then -size else size, unsigned.dropWhile Char.isDigit)

/-- The number of a significand with the exponent that may follow, and the rest. -/
def finish? (s : Significand) (rest : List Char) : Option (Float × List Char) :=
  match rest with
  | c :: more =>
    if c = 'e' ∨ c = 'E' then do
      let (e, rest) ← readExponent? more
      let x ← scale? s.value (s.exponent + e)
      pure (x, rest)
    else (scale? s.value s.exponent).map (·, rest)
  | [] => (scale? s.value s.exponent).map (·, [])

/-- The number without its sign, and what follows it. -/
def readUnsigned? (cs : List Char) : Option (Float × List Char) :=
  let whole := cs.takeWhile Char.isDigit
  let rest := cs.dropWhile Char.isDigit
  if whole.isEmpty || (whole.head? == some '0' && 1 < whole.length) then none
  else
    let s := whole.foldl (fun s c => s.pushWhole (digitValue c)) (⟨0, 0, false⟩ : Significand)
    match rest with
    | '.' :: more =>
      let fraction := more.takeWhile Char.isDigit
      if fraction.isEmpty then none
      else
        let s := fraction.foldl (fun s c => s.pushFraction (digitValue c)) { s with full := false }
        finish? s (more.dropWhile Char.isDigit)
    | _ => finish? s rest

/-- A number and what follows it. -/
def readNumber? (cs : List Char) : Option (Float × List Char) :=
  match cs with
  | '-' :: rest => (readUnsigned? rest).map fun (x, rest) => (-x, rest)
  | _ => readUnsigned? cs

end Reckon.Json
