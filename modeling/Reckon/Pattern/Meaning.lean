import Reckon.Pattern.Automaton
import Reckon.Pattern.Syntax
import Reckon.Unicode.Folding
import Reckon.Unicode.Property

/-!
What patterns stand for under the flags in force.

A change of flags holds to the end of the group that it stands in. Without the flag for Unicode a pattern
is about bytes, and it has no meaning if it could find bytes that are no text. It has none either if it
would take too much room once its repetitions are written out.
-/

namespace Reckon

/-- The flags in force. -/
structure Flags where
  ignoreCase : Bool
  manyLines : Bool
  dotAll : Bool
  unicode : Bool
  carriageReturns : Bool
deriving Repr, DecidableEq

namespace Flags

/-- The flags at the start of a pattern. -/
def initial : Flags := ⟨false, false, false, true, false⟩

def change (flags : Flags) (c : FlagChange) : Flags :=
  { ignoreCase := c.apply .ignoreCase flags.ignoreCase
    manyLines := c.apply .manyLines flags.manyLines
    dotAll := c.apply .dotAll flags.dotAll
    unicode := c.apply .unicode flags.unicode
    carriageReturns := c.apply .carriageReturns flags.carriageReturns }

/-- All characters, or all bytes. -/
def everything (flags : Flags) : CharSet :=
  if flags.unicode then CharSet.full else CharSet.range 0 0xff

/-- Adds the letters that differ in case only, if case is ignored. -/
def fold (flags : Flags) (s : CharSet) : CharSet :=
  if flags.ignoreCase then
    if flags.unicode then s.foldCase
    else
      let letters := (s.ranges.flatMap fun (lo, hi) =>
        [(max lo 0x41 + 0x20, min hi 0x5a + 0x20), (max lo 0x61 - 0x20, min hi 0x7a - 0x20)])
      s.union ⟨letters.filter fun (lo, hi) => lo ≤ hi⟩
  else s

def negate (flags : Flags) (negated : Bool) (s : CharSet) : CharSet :=
  if negated then flags.everything.diff s else s

end Flags

namespace CharSet

def isAscii (s : CharSet) : Bool := s.ranges.all fun (_, hi) => hi < 0x80

/-- The ASCII characters of a class of one letter. -/
def ofAsciiShorthand : Shorthand → CharSet
  | .digit => ⟨[(0x30, 0x39)]⟩
  | .blank => ⟨[(9, 0xd), (0x20, 0x20)]⟩
  | .word => ⟨[(0x30, 0x39), (0x41, 0x5a), (0x5f, 0x5f), (0x61, 0x7a)]⟩

def ofShorthand : Shorthand → CharSet
  | .digit => decimalDigit
  | .blank => blank
  | .word => word

end CharSet

namespace SetOperation

def apply : SetOperation → CharSet → CharSet → CharSet
  | intersection, s, t => s.inter t
  | difference, s, t => s.diff t
  | symmetricDifference, s, t => s.symmDiff t

end SetOperation

namespace SetTree

mutual

/-- The characters or bytes of a written set. -/
def toSet? (flags : Flags) : SetTree → Option CharSet
  | char c => if flags.unicode || c.toNat < 0x80 then some (.singleton c.toNat) else none
  | range first last =>
    if flags.unicode || last.toNat < 0x80 then some (.range first.toNat last.toNat) else none
  | shorthand s negated =>
    if flags.unicode then some (flags.negate negated (.ofShorthand s))
    else if negated then none
    else some (.ofAsciiShorthand s)
  | ascii s negated => some (flags.negate negated (flags.fold s))
  | property s negated => if flags.unicode then some (flags.negate negated (flags.fold s)) else none
  | bracket negated inner => (inner.toSet? flags).map fun s => flags.negate negated (flags.fold s)
  | union members => (toSets? flags members).map .unions
  | combined op left right => do
    let s ← left.toSet? flags
    let t ← right.toSet? flags
    some (op.apply (flags.fold s) (flags.fold t))

def toSets? (flags : Flags) : List SetTree → Option (List CharSet)
  | [] => some []
  | s :: rest => do
    let first ← s.toSet? flags
    let others ← toSets? flags rest
    some (first :: others)

end

end SetTree

namespace Gap

def isWord (words : CharSet) : Option Char → Bool
  | some c => words.contains c.toNat
  | none => false

/-- Whether an assertion holds in a gap. -/
def satisfies (flags : Flags) (words : CharSet) (a : Assertion) (gap : Gap) : Bool :=
  let before := isWord words gap.before
  let after := isWord words gap.after
  match a with
  | .textStart => gap.before.isNone
  | .textEnd => gap.after.isNone
  | .lineStart =>
    gap.before.isNone || (flags.manyLines && (gap.before == some '\n' ||
      (flags.carriageReturns && gap.before == some '\r' && gap.after != some '\n')))
  | .lineEnd =>
    gap.after.isNone || (flags.manyLines &&
      if flags.carriageReturns then
        gap.after == some '\r' || (gap.after == some '\n' && gap.before != some '\r')
      else gap.after == some '\n')
  | .wordBoundary => before != after
  | .notWordBoundary => before == after
  | .wordStart => !before && after
  | .wordEnd => before && !after
  | .wordStartHalf => !before
  | .wordEndHalf => !after

end Gap

namespace Pattern

/-- The room for one state of an automaton that reads bytes. -/
def stateRoom : Nat := 32

/-- The most room that a pattern may take. -/
def roomLimit : Nat := 10485760

/-- The ranges of bytes that characters between two run through, one list for all those that range
independently. Both characters have so many bytes. -/
def byteRanges : Nat → List Nat → List Nat → List (List (Nat × Nat))
  | count + 1, a :: lo, b :: hi =>
    let least := List.replicate count 0x80
    let most := List.replicate count 0xbf
    if a = b then (byteRanges count lo hi).map ((a, a) :: ·)
    else
      let first := if lo = least then [] else (byteRanges count lo most).map ((a, a) :: ·)
      let last := if hi = most then [] else (byteRanges count least hi).map ((b, b) :: ·)
      let a := if first.isEmpty then a else a + 1
      let b := if last.isEmpty then b else b - 1
      let middle := if a ≤ b then [(a, b) :: List.replicate count (0x80, 0xbf)] else []
      first ++ middle ++ last
  | _, _, _ => [[]]

/-- The bytes of a character. -/
def utf8Bytes (n : Nat) : List Nat :=
  if n < 0x80 then [n]
  else if n < 0x800 then [0xc0 + n / 64, 0x80 + n % 64]
  else if n < 0x10000 then [0xe0 + n / 4096, 0x80 + n / 64 % 64, 0x80 + n % 64]
  else [0xf0 + n / 262144, 0x80 + n / 4096 % 64, 0x80 + n / 64 % 64, 0x80 + n % 64]

/-- The parts of a range of characters that have equally many bytes. -/
def sameLength (lo hi : Nat) : List (Nat × Nat) :=
  [(0, 0x7f), (0x80, 0x7ff), (0x800, 0xd7ff), (0xe000, 0xffff), (0x10000, 0x10ffff)].filterMap
    fun (first, last) => if max lo first ≤ min hi last then some (max lo first, min hi last) else none

/-- The number of members that two lists share at their starts. -/
def sharedLength {α : Type} [BEq α] : List α → List α → Nat
  | a :: l, b :: m => if a == b then sharedLength l m + 1 else 0
  | _, _ => 0

/-- The room for a set of characters. Ranges of bytes that begin alike share their states. -/
def setRoom (s : CharSet) : Nat :=
  if s.isAscii then 2 * stateRoom + 8 * s.ranges.length
  else
    let sequences := (s.ranges.flatMap fun (lo, hi) => sameLength lo hi).flatMap fun (lo, hi) =>
      byteRanges (utf8Bytes lo).length (utf8Bytes lo) (utf8Bytes hi)
    let (states, _) := sequences.foldl (fun (n, last) bytes =>
      (n + (bytes.length - sharedLength last bytes), bytes)) (0, [])
    (states + 2) * stateRoom + 4 * sequences.length

/-- A part of a pattern: what it stands for and the room it takes. -/
structure Part where
  automaton : Automaton
  room : Nat

namespace Part

def empty : Part := ⟨.empty, 0⟩

/-- One character of a set. -/
def ofSet (s : CharSet) : Part := ⟨.one false s, setRoom s⟩

/-- One of two; a bar takes a state that leads to both. -/
def alt (p q : Part) : Part := ⟨.alt p.automaton q.automaton, p.room + q.room + 4⟩

def seq (p q : Part) : Part := ⟨.seq p.automaton q.automaton, p.room + q.room⟩

/-- A part repeated, unless that takes too much room. -/
def repeated? (p : Part) (least : Nat) (most : Option Nat) : Option Part :=
  let room := match most with
    | some most => least * p.room + (most - least) * (p.room + stateRoom + 8)
    | none => max least 1 * p.room + stateRoom + 8
  if room ≤ roomLimit then some ⟨p.automaton.repeated least most, room⟩ else none

end Part

/-- A character under flags. -/
def charPart? (flags : Flags) (c : Char) (byte : Bool) : Option Part :=
  if !flags.unicode && byte && 0x80 ≤ c.toNat then none
  else
    let alone := CharSet.singleton c.toNat
    let folded := if flags.unicode || c.toNat < 0x80 then flags.fold alone else alone
    if folded.ranges = alone.ranges then some ⟨.one false alone, stateRoom * c.utf8Size⟩
    else some (.ofSet folded)

/-- Any character under flags. -/
def anySet (flags : Flags) : CharSet :=
  if flags.dotAll then .full
  else if flags.carriageReturns then CharSet.complement ⟨[(0xa, 0xa), (0xd, 0xd)]⟩
  else CharSet.complement ⟨[(0xa, 0xa)]⟩

mutual

/-- What a pattern stands for under flags, and the flags after it. -/
def part? (flags : Flags) : Pattern → Option (Part × Flags)
  | empty => some (.empty, flags)
  | .flags change => some (.empty, flags.change change)
  | char c byte => (charPart? flags c byte).map (·, flags)
  | any => if flags.unicode then some (.ofSet (anySet flags), flags) else none
  | assertion a =>
    let words := if flags.unicode then CharSet.word else .ofAsciiShorthand .word
    some (⟨.check (Gap.satisfies flags words a), stateRoom⟩, flags)
  | set s =>
    match s.toSet? flags with
    | some s => if flags.unicode || s.isAscii then some (.ofSet s, flags) else none
    | none => none
  | repeated p least most => do
    let (part, _) ← p.part? flags
    let repeats := if p.isWidthless then
        part.repeated? (min least 1) (most.map (min 1))
      else part.repeated? least most
    repeats.map (·, flags)
  | group captures change p => do
    let (part, _) ← p.part? (flags.change change)
    some (⟨part.automaton, part.room + if captures then 2 * stateRoom else 0⟩, flags)
  | sequence ps => sequence? flags ps
  | choice ps => choice? flags ps

/-- The parts one after the other. -/
def sequence? (flags : Flags) : List Pattern → Option (Part × Flags)
  | [] => some (.empty, flags)
  | p :: rest => do
    let (first, flags) ← p.part? flags
    let (others, flags) ← sequence? flags rest
    some (first.seq others, flags)

/-- One of the parts. -/
def choice? (flags : Flags) : List Pattern → Option (Part × Flags)
  | [] => some (⟨.one false .empty, 2 * stateRoom⟩, flags)
  | p :: rest => do
    let (first, flags) ← p.part? flags
    let (others, flags) ← choice? flags rest
    some (first.alt others, flags)

end

/-- The automaton of a pattern. -/
def automaton? (p : Pattern) : Option Automaton :=
  match p.part? .initial with
  | some (part, _) => if part.room ≤ roomLimit then some part.automaton else none
  | none => none

end Pattern
end Reckon
