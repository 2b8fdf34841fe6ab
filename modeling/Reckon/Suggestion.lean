import Reckon.Table

/-!
Suggestions for misspelt names.

Two names are as far apart as the least number of characters to insert, delete or substitute between
their lower-case forms. The nearest known name within a bound is suggested, the earliest of several.
-/

namespace Reckon

/-- The row of the edit matrix below `above`, which starts with `corner`, for one more character.
`left` is the number last written. -/
def extendRow (c : Char) (left corner : Nat) : List Char → List Nat → List Nat
  | d :: ds, above :: rest =>
    let substitution := corner + if c = d then 0 else 1
    let n := min (min substitution (above + 1)) (left + 1)
    n :: extendRow c n above ds rest
  | _, _ => []

/-- The next row of the edit matrix. -/
def nextRow (ds : List Char) (row : List Nat) (c : Char) : List Nat :=
  match row with
  | corner :: rest => (corner + 1) :: extendRow c (corner + 1) corner ds rest
  | [] => []

/-- The number of edits between two texts. -/
def editDistance (cs ds : List Char) : Nat :=
  (cs.foldl (nextRow ds) (List.range (ds.length + 1))).getLastD 0

/-- The number of edits between two names, in any case. -/
def nameDistance (a b : String) : Nat := editDistance (foldName a).toList (foldName b).toList

/-- The candidate of least distance, the first of several. -/
def nearest (name : String) : List String → Option (Nat × String)
  | [] => none
  | candidate :: rest =>
    let distance := nameDistance name candidate
    match nearest name rest with
    | some (d, other) => if d < distance then some (d, other) else some (distance, candidate)
    | none => some (distance, candidate)

/-- The nearest candidate within a bound. -/
def findSimilar (name : String) (candidates : List String) (bound : Nat) : Option String :=
  (nearest name (candidates.filter fun c => nameDistance name c ≤ bound)).map (·.2)

/-- How many edits a suggestion may need: longer names tolerate more. -/
def suggestionBound (name : String) : Nat := max 1 (min 3 (name.utf8ByteSize / 3))

/-- The end of a message about an unknown name. -/
def suggestionSuffix (name : String) (known : List String) : String :=
  match findSimilar name known (suggestionBound name) with
  | some candidate => " (did you mean '" ++ candidate ++ "'?)"
  | none => ""

end Reckon
