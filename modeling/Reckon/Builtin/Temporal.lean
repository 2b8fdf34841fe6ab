import Reckon.Builtin.Arguments
import Reckon.Calendar.Layout
import Reckon.Number.Arithmetic

/-!
Functions of time. Each takes the seconds since the start of 1970 as an optional argument, and works on
the present second if it is missing or null.
-/

namespace Reckon.Builtin

/-- The moment that an argument stands for. -/
def momentArgument (now : Int) (name : String) (arguments : List Value) (index : Nat) :
    Except Failure Moment :=
  let value := argument arguments index
  let epoch := if value.isNull then now else toInteger value.toNumber
  match Moment.ofEpoch? epoch with
  | some moment => .ok moment
  | none =>
    .error (.argumentType name "an epoch time in range" (String.ofList (numberText value.toNumber)))

def time (now : Int) (arguments : List Value) : Except Failure Value := do
  (Arity.exactly 0).check "time" arguments
  pure (.number (Float.ofInt now))

/-- A number of the moment that the argument stands for. -/
def ofMoment (name : String) (part : Moment → Int) (now : Int) (arguments : List Value) :
    Except Failure Value := do
  (Arity.between 0 1).check name arguments
  let moment ← momentArgument now name arguments 0
  pure (.number (Float.ofInt (part moment)))

def timeHour : Int → List Value → Except Failure Value :=
  ofMoment "time::hour" fun m => m.hour

def timeMinute : Int → List Value → Except Failure Value :=
  ofMoment "time::min" fun m => m.minute

def timeSecond : Int → List Value → Except Failure Value :=
  ofMoment "time::sec" fun m => m.second

def dateDay : Int → List Value → Except Failure Value :=
  ofMoment "date::day" fun m => m.date.day

def dateMonth : Int → List Value → Except Failure Value :=
  ofMoment "date::month" fun m => m.date.month

def dateYear : Int → List Value → Except Failure Value :=
  ofMoment "date::year" fun m => m.date.year

/-- The number of the day of the week, zero for Sunday. -/
def dateWeekday : Int → List Value → Except Failure Value :=
  ofMoment "date::weekday" fun m => m.date.daysFromSunday

def dateDayName (now : Int) (arguments : List Value) : Except Failure Value := do
  (Arity.between 0 1).check "date::day_name" arguments
  let moment ← momentArgument now "date::day_name" arguments 0
  pure (.text (String.ofList moment.shortWeekdayName))

/-- Lays out a moment. -/
def strftime (now : Int) (arguments : List Value) : Except Failure Value := do
  (Arity.between 1 2).check "strftime" arguments
  let layout := (argument arguments 0).toText
  let moment ← momentArgument now "strftime" arguments 1
  match layoutItems? layout.toList with
  | some items => pure (.text (String.ofList (moment.format items)))
  | none => throw (.functionFailed "strftime" ("invalid format string '" ++ layout ++ "'"))

end Reckon.Builtin
