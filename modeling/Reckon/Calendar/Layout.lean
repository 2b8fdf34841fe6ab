import Reckon.Calendar.Moment

/-!
Layouts of dates and times.

A layout is a text with directives: a percent sign, for a number perhaps the way it is filled up to its
width, and a letter. A text with a directive that does not exist is no layout at all.
-/

namespace Reckon

/-- How a number is filled up to its width. -/
inductive Padding where
  | none
  | zero
  | space
deriving Repr, DecidableEq

/-- The numbers of a moment. -/
inductive NumberField where
  | year
  | century
  | yearOfCentury
  | isoYear
  | isoYearOfCentury
  | quarter
  | month
  | day
  | weekFromSunday
  | weekFromMonday
  | isoWeek
  | daysFromSunday
  | dayFromMonday
  | ordinal
  | hour
  | hour12
  | minute
  | second
  | nanosecond
  | epoch
deriving Repr, DecidableEq

/-- The names of parts of a moment. -/
inductive NameField where
  | shortWeekday
  | longWeekday
  | shortMonth
  | longMonth
  | lowerHalfDay
  | upperHalfDay
deriving Repr, DecidableEq

/-- A part of a layout. -/
inductive LayoutItem where
  | literal (text : List Char)
  | number (field : NumberField) (padding : Padding)
  | name (field : NameField)
  | timestamp
deriving Repr, DecidableEq

namespace LayoutItem

private def zeros (field : NumberField) : LayoutItem := number field .zero

private def literalText (s : String) : LayoutItem := literal s.toList

private def clock : List LayoutItem :=
  [zeros .hour, literalText ":", zeros .minute, literalText ":", zeros .second]

private def shortDate : List LayoutItem :=
  [zeros .month, literalText "/", zeros .day, literalText "/", zeros .yearOfCentury]

/-- What a letter after a percent sign stands for. -/
def ofLetter? : Char → Option (List LayoutItem)
  | 'A' => some [name .longWeekday]
  | 'B' => some [name .longMonth]
  | 'C' => some [zeros .century]
  | 'D' => some shortDate
  | 'F' => some [zeros .year, literalText "-", zeros .month, literalText "-", zeros .day]
  | 'G' => some [zeros .isoYear]
  | 'H' => some [zeros .hour]
  | 'I' => some [zeros .hour12]
  | 'M' => some [zeros .minute]
  | 'P' => some [name .lowerHalfDay]
  | 'R' => some [zeros .hour, literalText ":", zeros .minute]
  | 'S' => some [zeros .second]
  | 'T' => some clock
  | 'U' => some [zeros .weekFromSunday]
  | 'V' => some [zeros .isoWeek]
  | 'W' => some [zeros .weekFromMonday]
  | 'X' => some clock
  | 'Y' => some [zeros .year]
  | 'Z' => some [literalText "UTC"]
  | 'a' => some [name .shortWeekday]
  | 'b' | 'h' => some [name .shortMonth]
  | 'c' =>
    some ([name .shortWeekday, literalText " ", name .shortMonth, literalText " ",
      number .day .space, literalText " "] ++ clock ++ [literalText " ", zeros .year])
  | 'd' => some [zeros .day]
  | 'e' => some [number .day .space]
  | 'f' => some [zeros .nanosecond]
  | 'g' => some [zeros .isoYearOfCentury]
  | 'j' => some [zeros .ordinal]
  | 'k' => some [number .hour .space]
  | 'l' => some [number .hour12 .space]
  | 'm' => some [zeros .month]
  | 'n' => some [literalText "\n"]
  | 'p' => some [name .upperHalfDay]
  | 'q' => some [number .quarter .none]
  | 'r' =>
    some [zeros .hour12, literalText ":", zeros .minute, literalText ":", zeros .second,
      literalText " ", name .upperHalfDay]
  | 's' => some [number .epoch .none]
  | 't' => some [literalText "\t"]
  | 'u' => some [number .dayFromMonday .none]
  | 'v' =>
    some [number .day .space, literalText "-", name .shortMonth, literalText "-", zeros .year]
  | 'w' => some [number .daysFromSunday .none]
  | 'x' => some shortDate
  | 'y' => some [zeros .yearOfCentury]
  | 'z' => some [literalText "+0000"]
  | '+' => some [timestamp]
  | '%' => some [literalText "%"]
  | _ => none

/-- A single number with another padding. -/
def repad? (padding : Padding) : List LayoutItem → Option (List LayoutItem)
  | [number field _] => some [number field padding]
  | _ => none

end LayoutItem

/-- The padding that a character after the percent sign asks for. -/
def paddingOf? : Char → Option Padding
  | '-' => some .none
  | '0' => some .zero
  | '_' => some .space
  | _ => none

/-- The parts of a layout, none if a directive does not exist. Moments have whole seconds and no offset,
so directives for fractions and offsets are constant. -/
def layoutItems? : List Char → Option (List LayoutItem)
  | [] => some []
  | '%' :: ':' :: ':' :: ':' :: 'z' :: rest => constant "+00" (layoutItems? rest)
  | '%' :: ':' :: ':' :: 'z' :: rest => constant "+00:00:00" (layoutItems? rest)
  | '%' :: ':' :: 'z' :: rest => constant "+00:00" (layoutItems? rest)
  | '%' :: '.' :: 'f' :: rest => constant "" (layoutItems? rest)
  | '%' :: '.' :: '3' :: 'f' :: rest => constant ".000" (layoutItems? rest)
  | '%' :: '.' :: '6' :: 'f' :: rest => constant ".000000" (layoutItems? rest)
  | '%' :: '.' :: '9' :: 'f' :: rest => constant ".000000000" (layoutItems? rest)
  | '%' :: '3' :: 'f' :: rest => constant "000" (layoutItems? rest)
  | '%' :: '6' :: 'f' :: rest => constant "000000" (layoutItems? rest)
  | '%' :: '9' :: 'f' :: rest => constant "000000000" (layoutItems? rest)
  | ['%'] => none
  | '%' :: c :: rest =>
    match paddingOf? c, rest with
    | some padding, d :: rest =>
      joined ((LayoutItem.ofLetter? d).bind (LayoutItem.repad? padding)) (layoutItems? rest)
    | some _, [] => none
    | none, rest => joined (LayoutItem.ofLetter? c) (layoutItems? rest)
  | c :: rest => (layoutItems? rest).map (.literal [c] :: ·)
where
  constant (s : String) (rest : Option (List LayoutItem)) : Option (List LayoutItem) :=
    rest.map (.literal s.toList :: ·)
  joined (items rest : Option (List LayoutItem)) : Option (List LayoutItem) :=
    match items, rest with
    | some items, some rest => some (items ++ rest)
    | _, _ => none

/-- Fills a text up to a width from the left. -/
def padLeft (fill : Char) (width : Nat) (cs : List Char) : List Char :=
  List.replicate (width - cs.length) fill ++ cs

/-- A number with at least so many characters, a sign among them. -/
def padNumber (padding : Padding) (width : Nat) (signed : Bool) (n : Int) : List Char :=
  let digits := (toString n.natAbs).toList
  let sign := if n < 0 then ['-'] else if signed then ['+'] else []
  let width := if signed then width + 1 else width
  match padding with
  | .none => sign ++ digits
  | .zero => sign ++ padLeft '0' (width - sign.length) digits
  | .space => padLeft ' ' width (sign ++ digits)

/-- A number of two digits. The tens of a greater one are written as a single character. -/
def padTwo (padding : Padding) (n : Nat) : List Char :=
  let ones := Char.ofNat (0x30 + n % 10)
  match n / 10, padding with
  | 0, .none => [ones]
  | 0, .space => [' ', ones]
  | tens, _ => [Char.ofNat (0x30 + tens), ones]

/-- A year; one that four digits cannot show has a sign. -/
def padYear (padding : Padding) (year : Int) : List Char :=
  padNumber padding 4 (year < 0 ∨ 9999 < year) year

def weekdayNames : List String :=
  ["Sunday", "Monday", "Tuesday", "Wednesday", "Thursday", "Friday", "Saturday"]

def monthNames : List String :=
  ["January", "February", "March", "April", "May", "June", "July", "August", "September", "October",
    "November", "December"]

namespace Moment

/-- The name of the day of the week. -/
def weekdayName (m : Moment) : List Char := (weekdayNames.getD m.date.daysFromSunday "").toList

/-- The name of the month. -/
def monthName (m : Moment) : List Char := (monthNames.getD (m.date.month - 1) "").toList

/-- The name of the day of the week in three letters. -/
def shortWeekdayName (m : Moment) : List Char := m.weekdayName.take 3

/-- A number of a moment. A century is kept to one byte. -/
def numberText (m : Moment) (field : NumberField) (padding : Padding) : List Char :=
  match field with
  | .year => padYear padding m.date.year
  | .century => padTwo padding ((m.date.year.fdiv 100).emod 256).toNat
  | .yearOfCentury => padTwo padding (m.date.year.emod 100).toNat
  | .isoYear => padYear padding m.date.isoWeek.1
  | .isoYearOfCentury => padTwo padding (m.date.isoWeek.1.emod 100).toNat
  | .quarter => (toString ((m.date.month - 1) / 3 + 1)).toList
  | .month => padTwo padding m.date.month
  | .day => padTwo padding m.date.day
  | .weekFromSunday => padTwo padding m.date.weekFromSunday
  | .weekFromMonday => padTwo padding m.date.weekFromMonday
  | .isoWeek => padTwo padding m.date.isoWeek.2
  | .daysFromSunday => (toString m.date.daysFromSunday).toList
  | .dayFromMonday => (toString (m.date.daysFromMonday + 1)).toList
  | .ordinal => padNumber padding 3 false m.date.ordinal
  | .hour => padTwo padding m.hour
  | .hour12 => padTwo padding m.hour12
  | .minute => padTwo padding m.minute
  | .second => padTwo padding m.second
  | .nanosecond => padNumber padding 9 false 0
  | .epoch => padNumber padding 9 false m.epoch

/-- A name of a moment. -/
def nameText (m : Moment) : NameField → List Char
  | .shortWeekday => m.shortWeekdayName
  | .longWeekday => m.weekdayName
  | .shortMonth => m.monthName.take 3
  | .longMonth => m.monthName
  | .lowerHalfDay => (if m.hour < 12 then "am" else "pm").toList
  | .upperHalfDay => (if m.hour < 12 then "AM" else "PM").toList

/-- The date and time in one, with the offset. -/
def timestampText (m : Moment) : List Char :=
  padYear .zero m.date.year ++ '-' :: padTwo .zero m.date.month ++ '-' :: padTwo .zero m.date.day ++
    'T' :: padTwo .zero m.hour ++ ':' :: padTwo .zero m.minute ++ ':' :: padTwo .zero m.second ++
    "+00:00".toList

/-- A moment laid out. -/
def format (m : Moment) (items : List LayoutItem) : List Char :=
  items.flatMap fun item => match item with
    | .literal text => text
    | .number field padding => m.numberText field padding
    | .name field => m.nameText field
    | .timestamp => m.timestampText

end Moment
end Reckon
