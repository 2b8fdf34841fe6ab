import Reckon.Number.Arithmetic
import Reckon.Reported
import Reckon.Token

/-!
What operators do to reduced operands.

Comparisons and logic give one or zero. A division that cannot be carried out, or whose result is no
ordinary number, gives zero with a diagnostic.
-/

namespace Reckon

/-- One for true and zero for false. -/
def flag (b : Bool) : Token := .number (if b then 1.0 else 0.0)

/-- The truth of an operand, denied by `not`. -/
def logicalNot (op : Operator) (operand : Token) : Token :=
  match op with
  | .notNot => flag (operand.toNumber != 0.0)
  | _ => flag (operand.toNumber == 0.0)

def negate (operand : Token) : Token := .number (-operand.toNumber)

/-- Compares two numbers. -/
def compareNumbers (op : Operator) (a b : Float) : Token :=
  flag <| match op with
    | .eq => a == b
    | .ne => a != b
    | .lt => a < b
    | .le => a ≤ b
    | .gt => b < a
    | _ => b ≤ a

/-- Compares two texts by the code points of their characters. -/
def compareTexts (op : Operator) (a b : String) : Token :=
  flag <| match op with
    | .textEq => a == b
    | .textNe => a != b
    | .textLt => a < b
    | .textLe => !decide (b < a)
    | .textGt => b < a
    | _ => !decide (a < b)

/-- The least positive double of full precision. -/
def leastNormal : Float := Float.ofBits 0x0010000000000000

/-- The fault of a result that is no ordinary number. -/
def fault? (operation : Quotient) (x : Float) : Option Cause :=
  if x.isNaN then some (.domain operation)
  else if x.isInf then some (.overflow operation)
  else if x != 0.0 && x.abs < leastNormal then some (.underflow operation)
  else none

/-- A division that always gives a number. -/
def divide (a b : Float) : Reported Token :=
  if b == 0.0 then do
    report (.zeroDivisor .division a)
    pure (.number 0.0)
  else if a == 0.0 then pure (.number 0.0)
  else
    let quotient := a / b
    match fault? .division quotient with
    | some cause => do
      report cause
      pure (.number 0.0)
    | none =>
      if quotient != 0.0 && quotient * b != a then do
        report (.inexact a b)
        pure (.number quotient)
      else pure (.number quotient)

/-- A remainder that always gives a number. -/
def modulo (a b : Float) : Reported Token :=
  if b == 0.0 then do
    report (.zeroDivisor .modulo a)
    pure (.number 0.0)
  else
    let rest := remainder a b
    match fault? .modulo rest with
    | some cause => do
      report cause
      pure (.number 0.0)
    | none => pure (.number rest)

/-- Applies an operator between two reduced operands. Addition joins texts if the right operand is one.
A comparison becomes one of texts if either operand is a text. Conjunction looks at its right operand
alone. -/
def applyBinary (op : Operator) (lhs rhs : Token) : Reported Token :=
  match op with
  | .add =>
    if rhs.isText && (lhs.isText || lhs.isNumber) then pure (.text (lhs.toText ++ rhs.toText))
    else pure (.number (lhs.toNumber + rhs.toNumber))
  | .sub => pure (.number (lhs.toNumber - rhs.toNumber))
  | .mul => pure (.number (lhs.toNumber * rhs.toNumber))
  | .div => divide lhs.toNumber rhs.toNumber
  | .mod => modulo lhs.toNumber rhs.toNumber
  | .pow => pure (.number (lhs.toNumber.pow rhs.toNumber))
  | .cat => pure (.text (lhs.toText ++ rhs.toText))
  | .or => pure (flag (lhs.toNumber != 0.0 || rhs.toNumber != 0.0))
  | .and => pure (flag (rhs.toNumber != 0.0))
  | .eq | .ne | .lt | .le | .gt | .ge =>
    match op.textCounterpart? with
    | some textOp =>
      if lhs.isText || rhs.isText then pure (compareTexts textOp lhs.toText rhs.toText)
      else pure (compareNumbers op lhs.toNumber rhs.toNumber)
    | none => pure (compareNumbers op lhs.toNumber rhs.toNumber)
  | .textEq | .textNe | .textLt | .textLe | .textGt | .textGe =>
    pure (compareTexts op lhs.toText rhs.toText)
  | .not | .notNot | .set | .comma => do
    report (.notBinary op)
    pure .undefined

end Reckon
