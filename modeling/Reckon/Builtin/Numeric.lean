import Reckon.Builtin.Arguments
import Reckon.Number.Arithmetic

/-!
Functions on numbers, and conversions between numbers and texts.
-/

namespace Reckon.Builtin

/-- A function of one number. -/
def ofNumber (name : String) (op : Float → Float) (arguments : List Value) :
    Except Failure Value := do
  (Arity.exactly 1).check name arguments
  pure (.number (op (argument arguments 0).toNumber))

def squareRoot (arguments : List Value) : Except Failure Value := do
  (Arity.exactly 1).check "sqrt" arguments
  let n := (argument arguments 0).toNumber
  if n < 0 then
    throw (.argumentType "sqrt" "a non-negative number" (String.ofList (numberText n)))
  else pure (.number n.sqrt)

def magnitude : List Value → Except Failure Value := ofNumber "abs" Float.abs

def roundedDown : List Value → Except Failure Value := ofNumber "floor" Float.floor

def roundedUp : List Value → Except Failure Value := ofNumber "ceil" Float.ceil

/-- Rounds to the nearest whole number, a half away from zero. -/
def rounded : List Value → Except Failure Value := ofNumber "round" Float.round

def truncated : List Value → Except Failure Value := ofNumber "to_int" truncate

def asNumber : List Value → Except Failure Value := ofNumber "to_number" id

def asText (arguments : List Value) : Except Failure Value := do
  (Arity.exactly 1).check "to_string" arguments
  pure (.text (argument arguments 0).toText)

/-- The least argument. -/
def least (arguments : List Value) : Except Failure Value := do
  (Arity.atLeast 1).check "min" arguments
  pure (.number ((arguments.map Value.toNumber).foldl lesser (infinity false)))

/-- The greatest argument. -/
def greatest (arguments : List Value) : Except Failure Value := do
  (Arity.atLeast 1).check "max" arguments
  pure (.number ((arguments.map Value.toNumber).foldl greater (infinity true)))

end Reckon.Builtin
