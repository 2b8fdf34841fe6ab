import Reckon.Builtin.Numeric
import Reckon.Builtin.Temporal
import Reckon.Builtin.Textual
import Reckon.Reduction

/-!
The functions that come with formulas.
-/

namespace Reckon

namespace Builtin

/-- The functions with their names, in the order that they are listed. They are given the present
second. -/
def all (now : Int) : List (String × Function) :=
  [("time", time now),
   ("time::hour", timeHour now),
   ("time::min", timeMinute now),
   ("time::sec", timeSecond now),
   ("date::day", dateDay now),
   ("date::month", dateMonth now),
   ("date::year", dateYear now),
   ("date::weekday", dateWeekday now),
   ("date::day_name", dateDayName now),
   ("strftime", strftime now),
   ("sqrt", squareRoot),
   ("abs", magnitude),
   ("floor", roundedDown),
   ("ceil", roundedUp),
   ("round", rounded),
   ("min", least),
   ("max", greatest),
   ("to_string", asText),
   ("to_int", truncated),
   ("to_number", asNumber),
   ("strlen", length),
   ("substr", part),
   ("upper", upper),
   ("lower", lower),
   ("trim", trimmed),
   ("replace", replaced),
   ("contains", includes),
   ("matches", isFound),
   ("base64_encode", base64Encode),
   ("base64_decode", base64Decode)]

/-- The functions as a table. -/
def table (now : Int) : Table Function := Table.ofList (all now)

end Builtin
end Reckon
