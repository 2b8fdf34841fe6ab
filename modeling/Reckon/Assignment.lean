import Reckon.Reported
import Reckon.Token

/-!
Where assignment may stand.

A sequence may assign only as `name = ...`, and only at the root of a formula. Every other `=` is taken
out, together with the token before it unless that is a name. Arguments of calls are never empty:
separators that would leave an empty one are taken out. One pass from left to right does all of this,
since what it keeps is never looked at again.
-/

namespace Reckon

/-- What became of a part of a formula, and whether it was well formed as it was. -/
structure Checked (α : Type) where
  value : α
  valid : Bool
deriving Repr

/-- Whether a sequence begins with a name that can be assigned to. -/
def isTarget : Token → Bool
  | .name s => !s.isEmpty
  | _ => false

/-- The tokens before a misplaced `=`, the last first, without the one that it takes along. -/
def dropLeft : List Token → List Token
  | .name s :: older => .name s :: older
  | _ :: older => older
  | [] => []

/-- What becomes of an `=` after the tokens before it, the last first. -/
def placeAssignment (source : String) (root : Bool) (before : List Token) :
    Reported (Checked (List Token)) :=
  match root, before.reverse with
  | true, [target] =>
    if isTarget target then pure ⟨.operator .set :: before, true⟩ else misplaced
  | true, target :: .operator .set :: _ =>
    if isTarget target then do
      report (.chainedAssignment source)
      pure ⟨before, true⟩
    else misplaced
  | _, _ => misplaced
where
  misplaced : Reported (Checked (List Token)) := do
    report (.misplacedAssignment source)
    pure ⟨dropLeft before, false⟩

/-- Whether a separator after these tokens, the last first, would follow an empty argument. -/
def endsOpen : List Token → Bool
  | [] => true
  | t :: _ => t.operator?.isSome

mutual

/-- Repairs the sequences inside a token. -/
def repairToken (source : String) : Token → Reported (Checked Token)
  | .group inner => do
    let inner ← repairSequence source false [] inner
    pure ⟨.group inner.value, inner.valid⟩
  | .conditional whenTrue whenFalse => do
    let whenTrue ← repairSequence source false [] whenTrue
    let whenFalse ← repairSequence source false [] whenFalse
    pure ⟨.conditional whenTrue.value whenFalse.value, whenTrue.valid && whenFalse.valid⟩
  | .call name arguments => do
    let arguments ← repairArguments source [] arguments
    pure ⟨.call name arguments.value, arguments.valid⟩
  | t => pure ⟨t, true⟩

/-- Repairs a sequence after tokens that are repaired, the last of them first. -/
def repairSequence (source : String) (root : Bool) (before : List Token) :
    List Token → Reported (Checked (List Token))
  | [] => pure ⟨before.reverse, true⟩
  | t :: rest =>
    if t.isOperator .set then do
      let placed ← placeAssignment source root before
      let sequence ← repairSequence source root placed.value rest
      pure ⟨sequence.value, placed.valid && sequence.valid⟩
    else do
      let token ← repairToken source t
      let sequence ← repairSequence source root (token.value :: before) rest
      pure ⟨sequence.value, token.valid && sequence.valid⟩

/-- Repairs the arguments of a call after tokens that are repaired, the last of them first. -/
def repairArguments (source : String) (before : List Token) :
    List Token → Reported (Checked (List Token))
  | [] => pure ⟨before.reverse, true⟩
  | t :: rest =>
    if t.isOperator .set then do
      report (.assignmentInArguments source)
      let sequence ← repairArguments source before rest
      pure ⟨sequence.value, false⟩
    else if t.isOperator .comma && endsOpen before then do
      report (.misplacedSeparator source)
      let sequence ← repairArguments source before rest
      pure ⟨sequence.value, false⟩
    else do
      let token ← repairToken source t
      let sequence ← repairArguments source (token.value :: before) rest
      pure ⟨sequence.value, token.valid && sequence.valid⟩

end

/-- Repairs a sequence of tokens read from a source text. -/
def repair (source : String) (root : Bool) (tokens : List Token) :
    Reported (Checked (List Token)) :=
  repairSequence source root [] tokens

end Reckon
