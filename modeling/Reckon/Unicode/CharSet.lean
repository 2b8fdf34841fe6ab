/-!
Sets of characters as closed ranges of code points, and their written form.

A written set lists, in hexadecimal and separated by blanks, the gap before each range and the number
of code points in it, so the ranges of a written set are always increasing and disjoint.
-/

namespace Reckon

/-- A set of code points as closed ranges. -/
structure CharSet where
  ranges : List (Nat × Nat)
deriving Repr, DecidableEq

/-- The hexadecimal numbers of a row, separated by blanks. -/
def hexNumbers (row : String) : List Nat :=
  let step (state : List Nat × Option Nat) (c : Char) : List Nat × Option Nat :=
    if c.isDigit then (state.1, some (16 * state.2.getD 0 + (c.toNat - '0'.toNat)))
    else if 'a' ≤ c ∧ c ≤ 'f' then (state.1, some (16 * state.2.getD 0 + (c.toNat - 'a'.toNat + 10)))
    else match state.2 with
      | some n => (n :: state.1, none)
      | none => state
  let (read, last) := row.foldl step ([], none)
  (last.toList ++ read).reverse

/-- The hexadecimal numbers of rows. -/
def hexRows (rows : List String) : List Nat := rows.flatMap hexNumbers

namespace CharSet

def empty : CharSet := ⟨[]⟩

def singleton (n : Nat) : CharSet := ⟨[(n, n)]⟩

def range (lo hi : Nat) : CharSet := if lo ≤ hi then ⟨[(lo, hi)]⟩ else empty

/-- Every code point. -/
def full : CharSet := ⟨[(0, 0x10ffff)]⟩

def contains (s : CharSet) (n : Nat) : Bool := s.ranges.any fun (lo, hi) => lo ≤ n && n ≤ hi

/-- The ranges of gaps and lengths that follow `start`. -/
def ofGaps (start : Nat) : List Nat → List (Nat × Nat)
  | gap :: count :: rest =>
    (start + gap, start + gap + count - 1) :: ofGaps (start + gap + count) rest
  | _ => []

/-- The set of a written form. -/
def ofRows (rows : List String) : CharSet := ⟨ofGaps 0 (hexRows rows)⟩

/-- Adds a range to ranges that begin no earlier, joining what overlaps or touches. -/
def cover (lo hi : Nat) : List (Nat × Nat) → List (Nat × Nat)
  | [] => [(lo, hi)]
  | (lo', hi') :: rest =>
    if lo' ≤ hi + 1 then cover lo (max hi hi') rest else (lo, hi) :: (lo', hi') :: rest

/-- Puts the ranges in increasing order and makes them disjoint. -/
def normalize (ranges : List (Nat × Nat)) : List (Nat × Nat) :=
  let sorted := ranges.mergeSort fun a b => a.1 ≤ b.1
  sorted.foldr (fun (lo, hi) acc => cover lo hi acc) []

def union (a b : CharSet) : CharSet := ⟨normalize (a.ranges ++ b.ranges)⟩

def unions (sets : List CharSet) : CharSet := ⟨normalize (sets.flatMap ranges)⟩

/-- The gaps between increasing, disjoint ranges from `start` on. -/
def gaps (start : Nat) : List (Nat × Nat) → List (Nat × Nat)
  | [] => if start ≤ 0x10ffff then [(start, 0x10ffff)] else []
  | (lo, hi) :: rest =>
    if start < lo then (start, lo - 1) :: gaps (hi + 1) rest else gaps (hi + 1) rest

def complement (s : CharSet) : CharSet := ⟨gaps 0 (normalize s.ranges)⟩

def inter (a b : CharSet) : CharSet := complement (union (complement a) (complement b))

def diff (a b : CharSet) : CharSet := inter a (complement b)

def symmDiff (a b : CharSet) : CharSet := union (diff a b) (diff b a)

end CharSet
end Reckon
