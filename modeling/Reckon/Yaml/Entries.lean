import Reckon.Json.Entries
import Reckon.Yaml.Node

/-!
Between YAML documents and values: a mapping whose values are scalars gives a table of values.

What a plain scalar stands for is told by its text; quoted scalars and blocks stand for texts. Pairs are
taken in turn, so the first value that is a collection is refused before the rest is read.
-/

namespace Reckon.Yaml

/-! Scalars -/

def isNullText (s : String) : Bool := s == "null" || s == "Null" || s == "NULL" || s == "~"

def boolOfText? (s : String) : Option Bool :=
  if s = "true" ∨ s = "True" ∨ s = "TRUE" then some true
  else if s = "false" ∨ s = "False" ∨ s = "FALSE" then some false
  else none

/-- The value of digits in a base, of which there has to be one at least. -/
def natOfDigits? (base : Nat) (cs : List Char) : Option Nat :=
  if cs.isEmpty then none
  else cs.foldlM (fun n c => (hexValue? c).bind fun d => if d < base then some (base * n + d) else none) 0

/-- The value of an integer without its sign. Its base may be given before the digits. -/
def natOfText? : List Char → Option Nat
  | '0' :: 'x' :: digits => natOfDigits? 16 digits
  | '0' :: 'o' :: digits => natOfDigits? 8 digits
  | '0' :: 'b' :: digits => natOfDigits? 2 digits
  | digits => natOfDigits? 10 digits

/-- Whether digits begin with a zero that makes them a text. -/
def isPadded (cs : List Char) : Bool :=
  let digits := match cs with
    | '-' :: rest => rest
    | '+' :: rest => rest
    | _ => cs
  match digits with
  | '0' :: rest => !rest.isEmpty && rest.all Char.isDigit
  | _ => false

/-- The integer that a text is. -/
def intOfText? (cs : List Char) : Option Int :=
  if isPadded cs then none
  else match cs with
    | '-' :: digits => (natOfText? digits).map fun n => -n
    | '+' :: digits => (natOfText? digits).map fun n => n
    | digits => (natOfText? digits).map fun n => n

/-- The double of an integer of 64 bits, with a sign bit for those below zero. Outside of these, but still
within 128 bits, there is none. -/
def integerJson? (n : Int) : Option Json :=
  if 0 ≤ n ∧ n < Nat.pow 2 64 then some (.number (Float.ofNat n.toNat))
  else if -Nat.pow 2 63 ≤ n ∧ n < 0 then some (.number (Float.ofInt n))
  else none

/-- Whether an integer is read as one. -/
def fitsInteger (n : Int) : Bool := -Nat.pow 2 127 ≤ n && n < Nat.pow 2 128

def isInfinityText (s : String) : Bool := s == ".inf" || s == ".Inf" || s == ".INF"

/-- The number that a text is, finite or not. -/
def floatOfText? (cs : List Char) : Option Float :=
  let unsigned := match cs with
    | '+' :: rest => rest
    | _ => cs
  let s := String.ofList cs
  if isInfinityText (String.ofList unsigned) then some (infinity false)
  else if cs.head? = some '-' ∧ isInfinityText (String.ofList cs.tail) then some (infinity true)
  else if s = ".nan" ∨ s = ".NaN" ∨ s = ".NAN" then some notANumber
  else if cs.head? = some '+' ∧ unsigned.head?.any (fun c => c == '+' || c == '-') then none
  else (readNumber? unsigned).filter Float.isFinite

/-- The document of a number; there is none for one that is not finite. -/
def floatJson (x : Float) : Json := if x.isFinite then .number x else .null

/-- What a plain scalar stands for. -/
def plainJson? (cs : List Char) : Option Json :=
  let s := String.ofList cs
  if cs.isEmpty || isNullText s then some .null
  else match boolOfText? s, (intOfText? cs).filter fitsInteger with
    | some b, _ => some (.bool b)
    | none, some n => integerJson? n
    | none, none =>
      match if isPadded cs then none else floatOfText? cs with
      | some x => some (floatJson x)
      | none => some (.string s)

/-- The tag of a kind of value. -/
def standardTag (name : String) : List Char := ("tag:yaml.org,2002:" ++ name).toList

/-- Whether a tag belongs to the application. -/
def isLocalTag (tag : Option (List Char)) : Bool := tag.any fun t => t.head? == some '!'

/-- What a scalar stands for. A tag tells what to read it as, if it is one of a few. -/
def Scalar.toJson? (s : Scalar) : Option Json :=
  let text := String.ofList s.text
  match s.tag with
  | none => if s.style = .plain then plainJson? s.text else some (.string text)
  | some tag =>
    if isLocalTag s.tag then none
    else if tag = standardTag "bool" then (boolOfText? text).map .bool
    else if tag = standardTag "int" then
      ((intOfText? s.text).filter fitsInteger).bind integerJson?
    else if tag = standardTag "float" then (floatOfText? s.text).map floatJson
    else if tag = standardTag "null" then if isNullText text then some .null else none
    else some (.string text)

/-! Nodes -/

/-- How deep collections may be nested in a value. -/
def deepest : Nat := 127

/-- The text of a key, which is a scalar. -/
def Node.keyText? : Node → Option String
  | .scalar s => some (String.ofList s.text)
  | _ => none

mutual

/-- The document of a node with so many levels of nesting left. -/
def Node.toJson? : Nat → Node → Option Json
  | _, .scalar s => s.toJson?
  | 0, _ => none
  | levels + 1, .sequence tag items =>
    if isLocalTag tag then none else (itemsJson? levels items).map .array
  | levels + 1, .mapping tag pairs =>
    if isLocalTag tag then none else (pairsJson? levels pairs).map .object

def itemsJson? (levels : Nat) : List Node → Option (List Json)
  | [] => some []
  | node :: rest => do
    let first ← node.toJson? levels
    let others ← itemsJson? levels rest
    return first :: others

def pairsJson? (levels : Nat) : List (Node × Node) → Option (List (String × Json))
  | [] => some []
  | (key, value) :: rest => do
    let name ← key.keyText?
    let first ← value.toJson? levels
    let others ← pairsJson? levels rest
    return (name, first) :: others

end

/-! Tables -/

/-- Reads nodes; it may fail in more than one way. -/
abbrev Loader (α : Type) := StateT Reading (Except LoadError) α

/-- A reader of nodes, whose failures mean that the document is malformed. -/
def load {α : Type} (read : Reader α) : Loader α := fun r =>
  match read.run r with
  | some result => .ok result
  | none => .error .unreadable

/-- The name and value of a pair. -/
def entryOf (key value : Node) : Except LoadError (String × Value) := do
  match key.keyText?, value.toJson? deepest with
  | some name, some j => return (name, ← j.toValue)
  | _, _ => throw .unreadable

/-- The pairs of a mapping as names and values, as long as there is a next. -/
def loadPairs (next : Bool → Reader (Option (Node × Node))) :
    Nat → (first : Bool) → Loader (List (String × Value))
  | 0, _ => throw .unreadable
  | fuel + 1, first => do
    match ← load (next first) with
    | none => return []
    | some (key, value) =>
      let entry ← entryOf key value
      return entry :: (← loadPairs next fuel false)

/-- The next pair of a mapping without brackets. -/
def nextPair (fuel : Nat) : Reader (Option (Node × Node)) := do
  match ← readKey? fuel with
  | some key => return some (key, ← readValue fuel)
  | none => return none

/-- The next pair of a mapping in brackets. -/
def nextFlowPair (fuel : Nat) (first : Bool) : Reader (Option (Node × Node)) := do
  match ← readFlowKey? fuel first with
  | some (key, marked) => return some (key, ← readFlowValue fuel marked)
  | none => return none

/-- The pairs of the root of a document. A root with nothing in it has none. -/
def loadRoot (fuel : Nat) : Loader (List (String × Value)) := do
  let (tag, anchor) ← load readProperties
  load (Reader.setAnchor anchor none)
  match ← load Reader.peek with
  | .mappingStart =>
    load Reader.drop
    loadPairs (fun _ => nextPair fuel) fuel true
  | .flowMappingStart =>
    load Reader.drop
    loadPairs (nextFlowPair fuel) fuel true
  | .scalar _ _ | .sequenceStart | .flowSequenceStart => throw .unreadable
  | _ => if tag.isSome || anchor.isSome then return [] else throw .unreadable

/-- The pairs of the only document of a text. -/
def loadDocument (fuel : Nat) : Loader (List (String × Value)) := do
  match ← load (readOpening fuel) with
  | .absent => return []
  | .vacant =>
    load (readClosing fuel)
    return []
  | .present =>
    let entries ← loadRoot fuel
    load (readClosing fuel)
    return entries

/-- The table of values that a text holds. -/
def readTable (cs : List Char) : Except LoadError (Table Value) :=
  if !cs.all isPrintable then .error .unreadable
  else
    match (loadDocument (8 * cs.length + 16)).run ⟨.start cs, [], []⟩ with
    | .ok (entries, _) => .ok (tableOf entries)
    | .error e => .error e

end Reckon.Yaml
