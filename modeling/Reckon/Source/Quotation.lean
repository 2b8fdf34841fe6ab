/-!
Where a text stands in relation to its string literals.

A literal begins with either quote and ends with the same one. A backslash inside a literal takes the
character after it out of consideration, whatever escape it belongs to.
-/

namespace Reckon

/-- Outside every literal, inside one, or right after a backslash in one. -/
inductive Quotation where
  | outside
  | inside (quote : Char)
  | escaped (quote : Char)
deriving Repr, DecidableEq

def isQuote (c : Char) : Bool := c == '\'' || c == '"'

namespace Quotation

/-- The state after one more character. -/
def feed : Quotation → Char → Quotation
  | outside, c => if isQuote c then inside c else outside
  | escaped quote, _ => inside quote
  | inside quote, c =>
    if c = '\\' then escaped quote else if c = quote then outside else inside quote

/-- The state after a text. -/
def feedAll (q : Quotation) (cs : List Char) : Quotation := cs.foldl feed q

/-- Whether a character read in this state belongs to no literal. -/
def isPlain (q : Quotation) (c : Char) : Bool := q == outside && !isQuote c

def inString (q : Quotation) : Bool := q != outside

end Quotation
end Reckon
