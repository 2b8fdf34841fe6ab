import Reckon.Base64
import Reckon.Builtin.Arguments
import Reckon.Diagnostic
import Reckon.Number.Arithmetic
import Reckon.Pattern
import Reckon.Unicode.Case
import Reckon.Unicode.Grapheme

/-!
Functions on texts. Lengths and places count user-perceived characters.
-/

namespace Reckon

/-- Every occurrence replaced, from left to right and without overlap. `skip` characters of the
occurrence found last are still to be passed over. -/
def replaceFrom (needle replacement : List Char) : Nat → List Char → List Char
  | _, [] => []
  | skip + 1, _ :: rest => replaceFrom needle replacement skip rest
  | 0, c :: rest =>
    if needle.isPrefixOf (c :: rest) then
      replacement ++ replaceFrom needle replacement (needle.length - 1) rest
    else c :: replaceFrom needle replacement 0 rest

/-- Where a part of so many characters begins; a negative place counts from the end. -/
def partStart (total : Nat) (start : Int) : Nat :=
  if start < 0 then (total + start).toNat else min start.toNat total

/-- The part of a text from a place on, at most so many user-perceived characters long. -/
def partOf (clusters : List (List Char)) (start : Int) (length? : Option Int) : List Char :=
  let first := partStart clusters.length start
  let left := clusters.length - first
  let count := match length? with
    | some length => min length.toNat left
    | none => left
  ((clusters.drop first).take count).flatten

namespace Builtin

/-- A function of one text. -/
def ofText (name : String) (op : String → String) (arguments : List Value) :
    Except Failure Value := do
  (Arity.exactly 1).check name arguments
  pure (.text (op (argument arguments 0).toText))

def length (arguments : List Value) : Except Failure Value := do
  (Arity.exactly 1).check "strlen" arguments
  pure (.number (Float.ofNat (graphemes (argument arguments 0).toText.toList).length))

def part (arguments : List Value) : Except Failure Value := do
  (Arity.between 2 3).check "substr" arguments
  let clusters := graphemes (argument arguments 0).toText.toList
  let start := toInteger (argument arguments 1).toNumber
  match arguments[2]? with
  | none => pure (.text (String.ofList (partOf clusters start none)))
  | some value =>
    let length := value.toNumber
    if length < 0 then
      throw (.argumentType "substr" "a non-negative length" (String.ofList (numberText length)))
    else pure (.text (String.ofList (partOf clusters start (some (toInteger length)))))

def upper : List Value → Except Failure Value := ofText "upper" upperText

def lower : List Value → Except Failure Value := ofText "lower" lowerText

def trimmed : List Value → Except Failure Value :=
  ofText "trim" fun s => String.ofList (Reckon.trim s.toList)

/-- Replaces every occurrence of the second text in the first by the third. -/
def replaced (arguments : List Value) : Except Failure Value := do
  (Arity.exactly 3).check "replace" arguments
  let text := (argument arguments 0).toText
  let needle := (argument arguments 1).toText
  if needle.isEmpty then pure (.text text)
  else
    let replacement := (argument arguments 2).toText
    pure (.text (String.ofList (replaceFrom needle.toList replacement.toList 0 text.toList)))

def includes (arguments : List Value) : Except Failure Value := do
  (Arity.exactly 2).check "contains" arguments
  pure (.ofBool
    (occursIn (argument arguments 1).toText.toList (argument arguments 0).toText.toList))

/-- Whether a part of the first text is found by the second as a pattern. -/
def isFound (arguments : List Value) : Except Failure Value := do
  (Arity.exactly 2).check "matches" arguments
  match findsPattern? (argument arguments 1).toText (argument arguments 0).toText with
  | some found => pure (.ofBool found)
  | none => throw (.functionFailed "matches" "the pattern is malformed or too large")

def base64Encode : List Value → Except Failure Value :=
  ofText "base64_encode" fun s => String.ofList (Base64.encode s.toUTF8.toList)

def base64Decode (arguments : List Value) : Except Failure Value := do
  (Arity.exactly 1).check "base64_decode" arguments
  match Base64.decode (argument arguments 0).toText.toUTF8.toList with
  | .error e => throw (.functionFailed "base64_decode" ("invalid base64: " ++ e.message))
  | .ok bytes =>
    match String.fromUTF8? ⟨bytes.toArray⟩ with
    | some s => pure (.text s)
    | none => throw (.functionFailed "base64_decode" "decoded data is not valid UTF-8")

end Builtin
end Reckon
