import Reckon.Number.Numeral
import Reckon.Number.Text

/-!
Values that formulas work on: numbers, texts and null.

Every value reads as a number and as a text. A text reads as the number it begins with.
-/

namespace Reckon

inductive Value where
  | null
  | number (n : Float)
  | text (s : String)
deriving Repr, DecidableEq

/-- The number that a text begins with, else zero. -/
def textNumber (s : String) : Float := (readNumberPrefix? s.toList).getD 0.0

namespace Value

instance : Inhabited Value := ⟨null⟩

/-- One for true and zero for false. -/
def ofBool (b : Bool) : Value := number (if b then 1.0 else 0.0)

/-- The name of the kind of value. -/
def kind : Value → String
  | null => "null"
  | number _ => "number"
  | text _ => "string"

def isNull : Value → Bool
  | null => true
  | _ => false

/-- Null and the empty text are empty. -/
def isEmpty : Value → Bool
  | null => true
  | text s => s.isEmpty
  | number _ => false

/-- The reading as a number. -/
def toNumber : Value → Float
  | null => 0.0
  | number n => n
  | text s => textNumber s

/-- The reading as a text; null reads as the empty one. -/
def toText : Value → String
  | null => ""
  | number n => String.ofList (numberText n)
  | text s => s

/-- Whether the reading as a number is other than zero. -/
def isTruthy (v : Value) : Bool := v.toNumber != 0.0

def number? : Value → Option Float
  | number n => some n
  | _ => none

def text? : Value → Option String
  | text s => some s
  | _ => none

/-- The form shown to a reader; null is named. -/
def display : Value → String
  | null => "null"
  | v => v.toText

/-- Sameness of values: of numbers as numbers compare, so not-a-number differs from itself. -/
def same : Value → Value → Bool
  | null, null => true
  | number a, number b => a == b
  | text a, text b => a == b
  | _, _ => false

/-- The value that a bare text stands for: a number, `null`, else the text itself. -/
def infer (s : String) : Value :=
  if s = "null" then null
  else match readNumber? (trim s.toList) with
    | some n => number n
    | none => text s

end Value
end Reckon
