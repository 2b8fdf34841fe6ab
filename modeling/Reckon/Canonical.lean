import Reckon.Table
import Reckon.Token

/-!
The canonical text of tokens.

Tokens are separated by single blanks, a comma stands right after what precedes it, names are in lower
case, and a branch is put in parentheses unless it is one token. Most texts are read again as a sequence
with the same text; a comma after a conditional is one reason why not.
-/

namespace Reckon

/-- The canonical spelling of an undefined token, a character that no token begins with. -/
def undefinedMark : Char := '@'

/-- The lower-case hexadecimal digit of a number below sixteen. -/
def hexDigit (n : Nat) : Char := (Nat.toDigits 16 n).headD '0'

/-- The spelling of a character inside single quotes. -/
def quotedChar (c : Char) : List Char :=
  match c with
  | '\\' => ['\\', '\\']
  | '\'' => ['\\', '\'']
  | '\n' => ['\\', 'n']
  | '\t' => ['\\', 't']
  | '\r' => ['\\', 'r']
  | c =>
    if c.toNat < 0x20 ∨ c.toNat = 0x7f then
      ['\\', 'x', hexDigit (c.toNat / 16), hexDigit (c.toNat % 16)]
    else [c]

/-- A text as a literal in single quotes. -/
def quotedChars (cs : List Char) : List Char := '\'' :: cs.flatMap quotedChar ++ ['\'']

/-- A text as a literal in single quotes. -/
def quote (s : String) : String := String.ofList (quotedChars s.toList)

/-- The text of a branch of so many tokens. -/
def branchChars (count : Nat) (text : List Char) : List Char :=
  if count = 1 then ' ' :: text else ' ' :: '(' :: ' ' :: text ++ [' ', ')']

mutual

/-- The text of one token. -/
def tokenChars : Token → List Char
  | .undefined => [undefinedMark]
  | .number n => numberText n
  | .text s => quotedChars s.toList
  | .operator op => op.symbol.toList
  | .name s => (foldName s).toList
  | .call s arguments => (foldName s).toList ++ '(' :: sequenceChars false arguments ++ [')']
  | .group inner => '(' :: ' ' :: sequenceChars false inner ++ [' ', ')']
  | .conditional whenTrue whenFalse =>
    '?' :: branchChars whenTrue.length (sequenceChars false whenTrue) ++
      ' ' :: ':' :: branchChars whenFalse.length (sequenceChars false whenFalse)

/-- The text of a sequence, with a blank before its first token if something is already written. -/
def sequenceChars (written : Bool) : List Token → List Char
  | [] => []
  | t :: rest =>
    let chars := tokenChars t
    let gap := if written && !t.isOperator .comma then [' '] else []
    gap ++ chars ++ sequenceChars (written || !chars.isEmpty) rest

end

/-- The canonical text of a sequence. -/
def describe (tokens : List Token) : String := String.ofList (sequenceChars false tokens)

end Reckon
