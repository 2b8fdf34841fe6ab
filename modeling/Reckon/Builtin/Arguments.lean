import Reckon.Failure
import Reckon.Value

/-!
Checks on the number of arguments of a call.
-/

namespace Reckon

/-- How many arguments a function takes. -/
inductive Arity where
  | exactly (n : Nat)
  | between (least most : Nat)
  | atLeast (n : Nat)
deriving Repr, DecidableEq

namespace Arity

def admits (arity : Arity) (count : Nat) : Bool :=
  match arity with
  | exactly n => count == n
  | between least most => least ≤ count && count ≤ most
  | atLeast n => n ≤ count

/-- The wording in messages. -/
def text : Arity → String
  | exactly n => toString n
  | between least most => toString least ++ " to " ++ toString most
  | atLeast n => "at least " ++ toString n

/-- Fails if the number of arguments is not admitted. -/
def check (arity : Arity) (function : String) (arguments : List Value) : Except Failure Unit :=
  if arity.admits arguments.length then .ok ()
  else .error (.wrongArgumentCount function arity.text arguments.length)

end Arity

/-- The argument at a place; a missing one reads as null. -/
def argument (arguments : List Value) (index : Nat) : Value := arguments.getD index .null

end Reckon
