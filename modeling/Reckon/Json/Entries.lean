import Reckon.Json.Reader
import Reckon.Table
import Reckon.Value

/-!
Between documents and values: an object whose fields hold plain values gives a table of values.
-/

namespace Reckon

/-- Why a document gives no values. -/
inductive LoadError where
  | unreadable
  | arrayValue
  | objectValue
deriving Repr, DecidableEq

def LoadError.message : LoadError → String
  | unreadable => "the document is malformed"
  | arrayValue => "arrays cannot be used as expression values"
  | objectValue => "objects cannot be used as expression values"

/-- The value that a document stands for; truth values become one and zero. -/
def Json.toValue : Json → Except LoadError Value
  | .null => .ok .null
  | .bool b => .ok (.ofBool b)
  | .integer n => .ok (.number (Float.ofNat n))
  | .number x => .ok (.number x)
  | .string s => .ok (.text s)
  | .array _ => .error .arrayValue
  | .object _ => .error .objectValue

/-- The document of a value; a number that is not finite becomes null. -/
def Value.toJson : Value → Json
  | .null => .null
  | .number x => if x.isNaN || x.isInf then .null else .number x
  | .text s => .string s

/-- Writes a value to a name in exactly this spelling; a new one goes to the end. -/
def overwrite {α : Type} (name : String) (value : α) : List (String × α) → List (String × α)
  | [] => [(name, value)]
  | (other, old) :: rest =>
    if other = name then (name, value) :: rest else (other, old) :: overwrite name value rest

/-- The table of pairs in turn. A pair replaces an earlier one of the same spelling at its place, before
spellings of one name come together. -/
def tableOf {α : Type} (pairs : List (String × α)) : Table α :=
  Table.ofList (pairs.foldl (fun kept (name, value) => overwrite name value kept) [])

namespace Json

/-- The fields of an object after its first bracket, as values. -/
def readEntries : Nat → List Char → Except LoadError (List (String × Value) × List Char)
  | 0, _ => .error .unreadable
  | fuel + 1, cs =>
    match readFieldName? cs with
    | none => .error .unreadable
    | some (name, rest) =>
      match readValue? (deepest - 1) rest with
      | none => .error .unreadable
      | some (j, rest) => do
        let value ← j.toValue
        match skipSpace rest with
        | ',' :: rest => do
          let (entries, rest) ← readEntries fuel rest
          pure ((name, value) :: entries, rest)
        | '\x7d' :: rest => pure ([(name, value)], rest)
        | _ => throw .unreadable

/-- The table of values that a document holds. -/
def readTable (cs : List Char) : Except LoadError (Table Value) :=
  match skipSpace cs with
  | '\x7b' :: rest => do
    let (entries, rest) ← match skipSpace rest with
      | '\x7d' :: rest => pure ([], rest)
      | _ => readEntries (rest.length + 1) rest
    if (skipSpace rest).isEmpty then pure (tableOf entries) else throw .unreadable
  | _ => .error .unreadable

/-- The document of a table of values. -/
def ofTable (t : Table Value) : Json := object (t.toList.map fun (name, value) => (name, value.toJson))

end Json
end Reckon
