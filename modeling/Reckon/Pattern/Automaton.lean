import Reckon.Unicode.CharSet

/-!
Patterns that carry marks.

A marked character is one that the last character read may stand for. Reading a character moves the marks
on, so a text is searched in one pass over it, and the room that this takes does not grow with the text.
-/

namespace Reckon

/-- A gap between two characters of a text, or at one of its ends. -/
structure Gap where
  before : Option Char
  after : Option Char
deriving Repr, DecidableEq

inductive Automaton where
  | empty
  /-- The empty text in the gaps where a condition holds. -/
  | check (holds : Gap → Bool)
  /-- One character of a set. -/
  | one (marked : Bool) (s : CharSet)
  | seq (a b : Automaton)
  | alt (a b : Automaton)
  | star (a : Automaton)

namespace Automaton

/-- Whether the empty text in a gap is found. -/
def isNullable (gap : Gap) : Automaton → Bool
  | empty => true
  | check holds => holds gap
  | one _ _ => false
  | seq a b => a.isNullable gap && b.isNullable gap
  | alt a b => a.isNullable gap || b.isNullable gap
  | star _ => true

/-- Whether a text that began earlier is found to end in a gap. -/
def isFinal (gap : Gap) : Automaton → Bool
  | empty => false
  | check _ => false
  | one marked _ => marked
  | seq a b => b.isFinal gap || (a.isFinal gap && b.isNullable gap)
  | alt a b => a.isFinal gap || b.isFinal gap
  | star a => a.isFinal gap

/-- Reads the character after a gap. A text may begin there if `entering`, or goes on from the marks. -/
def shift (gap : Gap) (c : Char) (entering : Bool) : Automaton → Automaton
  | empty => empty
  | check holds => check holds
  | one _ s => one (entering && s.contains c.toNat) s
  | seq a b =>
    seq (a.shift gap c entering)
      (b.shift gap c ((entering && a.isNullable gap) || a.isFinal gap))
  | alt a b => alt (a.shift gap c entering) (b.shift gap c entering)
  | star a => star (a.shift gap c (entering || a.isFinal gap))

/-- Whether a part of a text is found, after the character before. -/
def search (before : Option Char) (a : Automaton) : List Char → Bool
  | [] => a.isNullable ⟨before, none⟩ || a.isFinal ⟨before, none⟩
  | c :: rest =>
    a.isNullable ⟨before, some c⟩ || a.isFinal ⟨before, some c⟩ ||
      search (some c) (a.shift ⟨before, some c⟩ c true) rest

/-- Whether a part of a text is found. -/
def finds (a : Automaton) (cs : List Char) : Bool := a.search none cs

/-- The same so many times, one after the other. -/
def power (a : Automaton) (n : Nat) : Automaton :=
  if n = 0 then empty
  else if n = 1 then a
  else seq (a.power (n / 2)) (a.power (n - n / 2))
termination_by n

/-- The same or nothing. -/
def optional (a : Automaton) : Automaton := alt empty a

/-- The same at least and at most so many times. -/
def repeated (a : Automaton) (least : Nat) : Option Nat → Automaton
  | some most => seq (a.power least) (a.optional.power (most - least))
  | none => seq (a.power least) (star a)

end Automaton
end Reckon
