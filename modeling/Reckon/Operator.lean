/-!
The operators of formulas and their spellings.

Most are symbols, where a longer symbol wins over a shorter one it begins with. The six comparisons of
texts are words and may be written in any case. `Operator.notNot` has no symbol of its own in a
formula: it arises from two `!` in a row.
-/

namespace Reckon

inductive Operator where
  | or
  | and
  | not
  | notNot
  | add
  | sub
  | cat
  | mul
  | div
  | mod
  | pow
  | eq
  | ne
  | lt
  | le
  | gt
  | ge
  | textEq
  | textNe
  | textLt
  | textLe
  | textGt
  | textGe
  | set
  | comma
deriving Repr, DecidableEq

namespace Operator

/-- The canonical spelling. -/
def symbol : Operator → String
  | or => "|"
  | and => "&"
  | not => "!"
  | notNot => "!!"
  | add => "+"
  | sub => "-"
  | cat => "."
  | mul => "*"
  | div => "/"
  | mod => "%"
  | pow => "^"
  | eq => "=="
  | ne => "!="
  | lt => "<"
  | le => "<="
  | gt => ">"
  | ge => ">="
  | textEq => "eq"
  | textNe => "ne"
  | textLt => "lt"
  | textLe => "le"
  | textGt => "gt"
  | textGe => "ge"
  | set => "="
  | comma => ","

/-- The name in messages. -/
def name : Operator → String
  | or => "OR"
  | and => "AND"
  | not => "NOT"
  | notNot => "NNOT"
  | add => "ADD"
  | sub => "SUB"
  | cat => "CAT"
  | mul => "MUL"
  | div => "DIV"
  | mod => "MOD"
  | pow => "POW"
  | eq => "EQ"
  | ne => "NE"
  | lt => "LT"
  | le => "LE"
  | gt => "GT"
  | ge => "GE"
  | textEq => "SEQ"
  | textNe => "SNE"
  | textLt => "SLT"
  | textLe => "SLE"
  | textGt => "SGT"
  | textGe => "SGE"
  | set => "SET"
  | comma => "COM"

/-- The name and the spelling together. -/
def display (op : Operator) : String := op.name ++ "(" ++ op.symbol ++ ")"

/-- The operator that a word spells, in any case. -/
def ofWord? (word : List Char) : Option Operator :=
  match word.map Char.toLower with
  | ['e', 'q'] => some textEq
  | ['n', 'e'] => some textNe
  | ['l', 't'] => some textLt
  | ['l', 'e'] => some textLe
  | ['g', 't'] => some textGt
  | ['g', 'e'] => some textGe
  | _ => none

/-- The longest symbol at the start of a text, with its length. -/
def ofSymbol? : List Char → Option (Operator × Nat)
  | '=' :: '=' :: _ => some (eq, 2)
  | '!' :: '=' :: _ => some (ne, 2)
  | '<' :: '=' :: _ => some (le, 2)
  | '=' :: '<' :: _ => some (le, 2)
  | '>' :: '=' :: _ => some (ge, 2)
  | '=' :: '>' :: _ => some (ge, 2)
  | '<' :: _ => some (lt, 1)
  | '>' :: _ => some (gt, 1)
  | '|' :: _ => some (or, 1)
  | '&' :: _ => some (and, 1)
  | '!' :: _ => some (not, 1)
  | '+' :: _ => some (add, 1)
  | '-' :: _ => some (sub, 1)
  | '.' :: _ => some (cat, 1)
  | '*' :: _ => some (mul, 1)
  | '/' :: _ => some (div, 1)
  | ',' :: _ => some (comma, 1)
  | '%' :: _ => some (mod, 1)
  | '^' :: _ => some (pow, 1)
  | '=' :: _ => some (set, 1)
  | _ => none

/-- Whether the operator may stand before an operand. -/
def isSign : Operator → Bool
  | sub | not | notNot => true
  | _ => false

/-- Whether the operator negates truth. -/
def isLogicalNot : Operator → Bool
  | not | notNot => true
  | _ => false

/-- The comparison of texts that a comparison of numbers becomes when a text takes part. -/
def textCounterpart? : Operator → Option Operator
  | eq => some textEq
  | ne => some textNe
  | lt => some textLt
  | le => some textLe
  | gt => some textGt
  | ge => some textGe
  | _ => none

end Operator
end Reckon
