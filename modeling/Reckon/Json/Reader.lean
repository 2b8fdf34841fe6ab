import Reckon.Json.Document
import Reckon.Json.Number

/-!
Reading JSON documents.

Documents are nested at most 127 levels deep. A reader of an object takes its fields in turn, so that it
can refuse a value before it has seen the rest of the document.
-/

namespace Reckon.Json

/-- How deep arrays and objects may be nested. -/
def deepest : Nat := 127

def isSpace (c : Char) : Bool := c == ' ' || c == '\n' || c == '\t' || c == '\r'

def skipSpace (cs : List Char) : List Char := cs.dropWhile isSpace

/-- The value of a hexadecimal digit. -/
def hexValue? (c : Char) : Option Nat :=
  if c.isDigit then some (c.toNat - '0'.toNat)
  else if 'a' ≤ c ∧ c ≤ 'f' then some (c.toNat - 'a'.toNat + 10)
  else if 'A' ≤ c ∧ c ≤ 'F' then some (c.toNat - 'A'.toNat + 10)
  else none

/-- The value of four hexadecimal digits. -/
def hexValues? (a b c d : Char) : Option Nat :=
  match hexValue? a, hexValue? b, hexValue? c, hexValue? d with
  | some k, some l, some m, some n => some (4096 * k + 256 * l + 16 * m + n)
  | _, _, _, _ => none

/-- The character of a one-letter escape. -/
def letterEscape? : Char → Option Char
  | '"' => some '"'
  | '\\' => some '\\'
  | '/' => some '/'
  | 'b' => some '\x08'
  | 'f' => some '\x0c'
  | 'n' => some '\n'
  | 'r' => some '\r'
  | 't' => some '\t'
  | _ => none

/-- Puts a character before the text that a reader gives. -/
def prepend (c : Char) : Option (List Char × List Char) → Option (List Char × List Char)
  | some (text, rest) => some (c :: text, rest)
  | none => none

/-- The text of a string after its first quote, and what follows the last. Halves of a surrogate pair
stand for one character together and for none alone. -/
def readString? : List Char → Option (List Char × List Char)
  | [] => none
  | '"' :: rest => some ([], rest)
  | '\\' :: 'u' :: a :: b :: c :: d :: rest =>
    match hexValues? a b c d with
    | none => none
    | some high =>
      if high < 0xd800 ∨ 0xdfff < high then prepend (Char.ofNat high) (readString? rest)
      else match rest with
        | '\\' :: 'u' :: e :: f :: g :: h :: rest =>
          match hexValues? e f g h with
          | some low =>
            if high < 0xdc00 ∧ 0xdc00 ≤ low ∧ low ≤ 0xdfff then
              prepend (Char.ofNat (0x10000 + (high - 0xd800) * 0x400 + (low - 0xdc00)))
                (readString? rest)
            else none
          | none => none
        | _ => none
  | '\\' :: c :: rest =>
    match letterEscape? c with
    | some decoded => prepend decoded (readString? rest)
    | none => none
  | c :: rest => if c.toNat < 0x20 then none else prepend c (readString? rest)

/-- A reader gives a result and what follows it. -/
abbrev Reader (α : Type) := List Char → Option (α × List Char)

/-- The items of an array after its first bracket, each read by `item`; `fuel` bounds their number. -/
def readItems? (item : Reader Json) : Nat → Reader (List Json)
  | 0, _ => none
  | fuel + 1, cs => do
    let (first, rest) ← item cs
    match skipSpace rest with
    | ',' :: rest =>
      let (items, rest) ← readItems? item fuel rest
      pure (first :: items, rest)
    | ']' :: rest => pure ([first], rest)
    | _ => none

/-- The name of a field, and what follows the colon. -/
def readFieldName? (cs : List Char) : Option (String × List Char) :=
  match skipSpace cs with
  | '"' :: rest => do
    let (name, rest) ← readString? rest
    match skipSpace rest with
    | ':' :: rest => pure (String.ofList name, rest)
    | _ => none
  | _ => none

/-- The fields of an object after its first bracket. -/
def readFields? (item : Reader Json) : Nat → Reader (List (String × Json))
  | 0, _ => none
  | fuel + 1, cs => do
    let (name, rest) ← readFieldName? cs
    let (value, rest) ← item rest
    match skipSpace rest with
    | ',' :: rest =>
      let (fields, rest) ← readFields? item fuel rest
      pure ((name, value) :: fields, rest)
    | '\x7d' :: rest => pure ([(name, value)], rest)
    | _ => none

/-- A value with so many levels of nesting left. -/
def readValue? (levels : Nat) : Reader Json := fun cs =>
  match skipSpace cs with
  | 'n' :: 'u' :: 'l' :: 'l' :: rest => some (null, rest)
  | 't' :: 'r' :: 'u' :: 'e' :: rest => some (bool true, rest)
  | 'f' :: 'a' :: 'l' :: 's' :: 'e' :: rest => some (bool false, rest)
  | '"' :: rest => (readString? rest).map fun (s, rest) => (string (String.ofList s), rest)
  | '[' :: rest =>
    match levels with
    | 0 => none
    | levels + 1 =>
      match skipSpace rest with
      | ']' :: rest => some (array [], rest)
      | _ =>
        (readItems? (readValue? levels) (rest.length + 1) rest).map fun (items, rest) =>
          (array items, rest)
  | '\x7b' :: rest =>
    match levels with
    | 0 => none
    | levels + 1 =>
      match skipSpace rest with
      | '\x7d' :: rest => some (object [], rest)
      | _ =>
        (readFields? (readValue? levels) (rest.length + 1) rest).map fun (fields, rest) =>
          (object fields, rest)
  | cs => (readNumber? cs).map fun (x, rest) => (number x, rest)

/-- A document, with nothing but space after it. -/
def read? (cs : List Char) : Option Json :=
  match readValue? deepest cs with
  | some (j, rest) => if (skipSpace rest).isEmpty then some j else none
  | none => none

end Reckon.Json
