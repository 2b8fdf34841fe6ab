import Reckon.Unicode.CharSet

/-!
The syntax of search patterns. A pattern is a tree whose depth is bounded where it is read.
-/

namespace Reckon

/-- How two sets of characters are combined. -/
inductive SetOperation where
  | intersection
  | difference
  | symmetricDifference
deriving Repr, DecidableEq

/-- The classes of one letter. -/
inductive Shorthand where
  | digit
  | blank
  | word
deriving Repr, DecidableEq

/-- A written set of characters. -/
inductive SetTree where
  | char (c : Char)
  | range (first last : Char)
  | shorthand (s : Shorthand) (negated : Bool)
  /-- A named set of ASCII characters. -/
  | ascii (s : CharSet) (negated : Bool)
  /-- A set given by a property of characters. -/
  | property (s : CharSet) (negated : Bool)
  | bracket (negated : Bool) (inner : SetTree)
  | union (members : List SetTree)
  | combined (op : SetOperation) (left right : SetTree)
deriving Repr

/-- What a pattern may ask of a place between two characters. -/
inductive Assertion where
  | textStart
  | textEnd
  /-- The start of the text, or of a line under the flag for many lines. -/
  | lineStart
  /-- The end of the text, or of a line under the flag for many lines. -/
  | lineEnd
  | wordBoundary
  | notWordBoundary
  | wordStart
  | wordEnd
  | wordStartHalf
  | wordEndHalf
deriving Repr, DecidableEq

/-- The flags that change what a pattern stands for, or how it is read. -/
inductive Flag where
  | ignoreCase
  | manyLines
  | dotAll
  | swapGreed
  | unicode
  | carriageReturns
  | extended
deriving Repr, DecidableEq

/-- Flags to set and flags to clear. -/
structure FlagChange where
  set : List Flag
  clear : List Flag
deriving Repr, DecidableEq

namespace FlagChange

def none : FlagChange := ⟨[], []⟩

/-- The state of a flag after the change. -/
def apply (change : FlagChange) (flag : Flag) (before : Bool) : Bool :=
  if change.set.contains flag then true
  else if change.clear.contains flag then false
  else before

end FlagChange

inductive Pattern where
  | empty
  /-- Changes the flags for the rest of the enclosing group. -/
  | flags (change : FlagChange)
  /-- A character; `byte` if it was written as two hexadecimal digits. -/
  | char (c : Char) (byte : Bool)
  /-- Any character, under most flags other than the end of a line. -/
  | any
  | assertion (a : Assertion)
  | set (s : SetTree)
  /-- Repetition at least and at most so many times. -/
  | repeated (p : Pattern) (least : Nat) (most : Option Nat)
  /-- A group, with the flags that change within it. -/
  | group (captures : Bool) (change : FlagChange) (p : Pattern)
  | sequence (ps : List Pattern)
  | choice (ps : List Pattern)
deriving Repr

namespace SetTree

mutual

/-- How deep brackets, unions and combinations are nested. -/
def depth : SetTree → Nat
  | bracket _ inner => inner.depth + 1
  | union members => depths members + 1
  | combined _ left right => max left.depth right.depth + 1
  | _ => 0

def depths : List SetTree → Nat
  | [] => 0
  | s :: rest => max s.depth (depths rest)

end

end SetTree

namespace Pattern

mutual

/-- How deep the parts of a pattern are nested. -/
def depth : Pattern → Nat
  | set (.bracket negated inner) => (SetTree.bracket negated inner).depth
  | repeated p _ _ => p.depth + 1
  | group _ _ p => p.depth + 1
  | sequence ps => depths ps + 1
  | choice ps => depths ps + 1
  | _ => 0

def depths : List Pattern → Nat
  | [] => 0
  | p :: rest => max p.depth (depths rest)

end

mutual

/-- Whether a pattern finds nothing but empty texts. -/
def isWidthless : Pattern → Bool
  | empty | flags _ | assertion _ => true
  | char _ _ | any | set _ => false
  | repeated p _ most => most == some 0 || p.isWidthless
  | group _ _ p => p.isWidthless
  | sequence ps => allWidthless ps
  | choice ps => allWidthless ps

def allWidthless : List Pattern → Bool
  | [] => true
  | p :: rest => p.isWidthless && allWidthless rest

end

/-- The parts of a sequence or choice, if there are not exactly one. -/
def ofSequence : List Pattern → Pattern
  | [] => empty
  | [p] => p
  | ps => sequence ps

def ofChoice : List Pattern → Pattern
  | [p] => p
  | ps => choice ps

end Pattern
end Reckon
