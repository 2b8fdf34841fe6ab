import Reckon.Number.Text

/-!
JSON documents and their written forms: compact, and laid out in lines with an indent of two blanks.
-/

namespace Reckon

/-- A JSON document. The fields of an object keep their order. -/
inductive Json where
  | null
  | bool (b : Bool)
  | integer (n : Nat)
  | number (x : Float)
  | string (s : String)
  | array (items : List Json)
  | object (fields : List (String × Json))
deriving Repr

namespace Json

instance : Inhabited Json := ⟨null⟩

/-- The lower-case hexadecimal digit of a number below sixteen. -/
def nibble (n : Nat) : Char := (Nat.toDigits 16 n).headD '0'

/-- A character inside a string. -/
def escapedChar (c : Char) : List Char :=
  match c with
  | '"' => ['\\', '"']
  | '\\' => ['\\', '\\']
  | '\n' => ['\\', 'n']
  | '\r' => ['\\', 'r']
  | '\t' => ['\\', 't']
  | '\x08' => ['\\', 'b']
  | '\x0c' => ['\\', 'f']
  | c =>
    if c.toNat < 0x20 then ['\\', 'u', '0', '0', nibble (c.toNat / 16), nibble (c.toNat % 16)]
    else [c]

/-- A text as a string. -/
def stringChars (s : String) : List Char := '"' :: s.toList.flatMap escapedChar ++ ['"']

/-- A number; one that is not finite has no form of its own. -/
def numberChars (x : Float) : List Char := (jsonNumberText? x).getD "null".toList

/-- Texts with a separator between them. -/
def separated (separator : List Char) : List (List Char) → List Char
  | [] => []
  | [text] => text
  | text :: rest => text ++ separator ++ separated separator rest

mutual

/-- The compact form. -/
def compactChars : Json → List Char
  | null => "null".toList
  | bool true => "true".toList
  | bool false => "false".toList
  | integer n => (toString n).toList
  | number x => numberChars x
  | string s => stringChars s
  | array items => '[' :: separated [','] (compactItems items) ++ [']']
  | object fields => '\x7b' :: separated [','] (compactFields fields) ++ ['\x7d']

def compactItems : List Json → List (List Char)
  | [] => []
  | item :: rest => compactChars item :: compactItems rest

def compactFields : List (String × Json) → List (List Char)
  | [] => []
  | (name, value) :: rest => (stringChars name ++ ':' :: compactChars value) :: compactFields rest

end

/-- The compact form. -/
def compact (j : Json) : String := String.ofList j.compactChars

/-- The start of a line so many levels deep. -/
def newLine (level : Nat) : List Char := '\n' :: List.replicate (2 * level) ' '

/-- Parts on lines of their own between two brackets. -/
def block (opening closing : Char) (level : Nat) (parts : List (List Char)) : List Char :=
  if parts.isEmpty then [opening, closing]
  else
    opening :: newLine (level + 1) ++ separated (',' :: newLine (level + 1)) parts ++
      newLine level ++ [closing]

mutual

/-- The form in lines, so many levels deep. -/
def prettyChars (level : Nat) : Json → List Char
  | null => "null".toList
  | bool true => "true".toList
  | bool false => "false".toList
  | integer n => (toString n).toList
  | number x => numberChars x
  | string s => stringChars s
  | array items => block '[' ']' level (prettyItems (level + 1) items)
  | object fields => block '\x7b' '\x7d' level (prettyFields (level + 1) fields)

def prettyItems (level : Nat) : List Json → List (List Char)
  | [] => []
  | item :: rest => prettyChars level item :: prettyItems level rest

def prettyFields (level : Nat) : List (String × Json) → List (List Char)
  | [] => []
  | (name, value) :: rest =>
    (stringChars name ++ ':' :: ' ' :: prettyChars level value) :: prettyFields level rest

end

/-- The form in lines. -/
def pretty (j : Json) : String := String.ofList (j.prettyChars 0)

end Json
end Reckon
