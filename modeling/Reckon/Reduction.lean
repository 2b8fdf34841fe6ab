import Reckon.Canonical
import Reckon.Operation
import Reckon.Suggestion

/-!
Evaluation by reduction.

A sequence of tokens is reduced step by step until one value is left. A step replaces every name by
its value, performs the first call, reduces the first group and the branches of the first conditional;
only if there is none of these does it combine the first operand with what follows it. So operators
apply from left to right, without precedence.

Nested sequences are reduced with one level of nesting fewer. A failure inside one gives null there and
no more; at the root it ends the evaluation. `weight` bounds the number of steps of a sequence.
-/

namespace Reckon

/-- A function that formulas can call. -/
abbrev Function := List Value → Except Failure Value

/-- What a formula is evaluated against. -/
structure Scope where
  functions : Table Function
  store : Table Value

/-- What a step did: changed the sequence, or found nothing to do. -/
inductive Step where
  | progressed (tokens : List Token)
  | stalled
deriving Repr

/-- Whether a sequence has something left to reduce. -/
def needsReduction : List Token → Bool
  | [] => false
  | [.name _] | [.call _ _] | [.group _] | [.operator .sub] => true
  | [_] => false
  | _ => true

/-- The share of a branch in the weight of its conditional. An empty branch counts for more than the
null that it is given. -/
def branchWeight (weight : Nat) : Nat := if weight = 0 then 2 else weight

mutual

/-- A measure of a token that every step of reduction lessens. -/
def Token.weight : Token → Nat
  | .undefined | .number _ | .text _ => 1
  | .operator _ | .name _ => 2
  | .call _ arguments => 2 + sequenceWeight arguments
  | .group inner => 2 + sequenceWeight inner
  | .conditional whenTrue whenFalse =>
    3 + branchWeight (sequenceWeight whenTrue) + branchWeight (sequenceWeight whenFalse)

/-- The sum of the weights of a sequence. -/
def sequenceWeight : List Token → Nat
  | [] => 0
  | t :: rest => t.weight + sequenceWeight rest

end

/-- The constants that names stand for unless a variable has the name. -/
def constant? (name : String) : Option Float :=
  match name with
  | "true" => some 1.0
  | "false" => some 0.0
  | "pi" => some (Float.ofBits 0x400921fb54442d18)
  | "pi_2" => some (Float.ofBits 0x3ff921fb54442d18)
  | "pi_4" => some (Float.ofBits 0x3fe921fb54442d18)
  | "e" => some (Float.ofBits 0x4005bf0a8b145769)
  | _ => none

/-- The value of a name: of the variable, else the constant, else the empty text. A variable that is
null is the empty text too. -/
def lookup (store : Table Value) (name : String) : Reported Token :=
  match store.get? name with
  | some .null => pure (.text "")
  | some value => pure (.ofValue value)
  | none => match constant? (foldName name) with
    | some n => pure (.number n)
    | none => do
      report (.unknownVariable name (suggestionSuffix name store.names))
      pure (.text "")

/-- Replaces every name by its value. -/
def resolveNames (store : Table Value) : List Token → Reported (List Token)
  | [] => pure []
  | .name s :: rest => do
    let token ← lookup store s
    let rest ← resolveNames store rest
    pure (token :: rest)
  | t :: rest => do
    let rest ← resolveNames store rest
    pure (t :: rest)

/-- Splits arguments at the separators; an empty one at the end is dropped. -/
def splitArguments : List Token → List (List Token)
  | [] => []
  | t :: rest =>
    if t.isOperator .comma then [] :: splitArguments rest
    else match splitArguments rest with
      | first :: more => (t :: first) :: more
      | [] => [[t]]

/-- A sequence cut before and after its first token of a kind. -/
def splitFirst (p : Token → Bool) : List Token → Option (List Token × Token × List Token)
  | [] => none
  | t :: rest =>
    if p t then some ([], t, rest)
    else (splitFirst p rest).map fun (before, found, after) => (t :: before, found, after)

/-- Reduces a nested sequence. -/
abbrev Settle := Place → List Token → Reported (List Token)

/-- The values of arguments, each null unless it comes down to one token. -/
def argumentValues (settle : Settle) : List (List Token) → Reported (List Value)
  | [] => pure []
  | argument :: rest => do
    let reduced ← settle .argument argument
    let value := match reduced with
      | [token] => token.toValue
      | _ => .null
    let values ← argumentValues settle rest
    pure (value :: values)

/-- Performs a call. Failures of the arguments stay in the arguments, that of the function does not. -/
def performCall (scope : Scope) (settle : Settle) (name : String) (arguments : List Token) :
    Attempt Token :=
  if name.isEmpty then do
    report .unnamedCall
    pure .undefined
  else match scope.functions.get? name with
    | none => do
      report (.unknownFunction name (suggestionSuffix name scope.functions.names))
      pure .undefined
    | some function => do
      let values ← argumentValues settle (splitArguments arguments)
      match function values with
      | .ok value => pure (.ofValue value)
      | .error failure => throw failure

def isCall : Token → Bool
  | .call _ _ => true
  | _ => false

def isGroup : Token → Bool
  | .group _ => true
  | _ => false

def isConditional : Token → Bool
  | .conditional _ _ => true
  | _ => false

/-- Performs the first call of a sequence, if there is one. -/
def resolveCall (scope : Scope) (settle : Settle) (tokens : List Token) :
    Attempt (Option (List Token)) :=
  match splitFirst isCall tokens with
  | some (before, .call name arguments, after) => do
    let token ← performCall scope settle name arguments
    return some (before ++ token :: after)
  | _ => return none

/-- Reduces the first group of a sequence, if there is one. A group without a value is taken out. -/
def resolveGroup (settle : Settle) (tokens : List Token) : Reported (Option (List Token)) :=
  match splitFirst isGroup tokens with
  | some (before, .group inner, after) => do
    let inner ← settle .parentheses inner
    match inner.getLast? with
    | some .undefined => do
      report .nullParentheses
      return some (before ++ after)
    | some token => return some (before ++ token :: after)
    | none => do
      report .emptyParentheses
      return some (before ++ after)
  | _ => return none

/-- Reduces a branch of more than one token, and gives an empty one a value. The flag tells whether the
branch has changed. -/
def resolveBranch (settle : Settle) (branch : Branch) (tokens : List Token) :
    Reported (List Token × Bool) := do
  let reduced ← if tokens.length > 1 then settle .branch tokens else pure tokens
  if reduced.isEmpty then
    report (.branchWithoutValue branch)
    return ([.undefined], true)
  else return (reduced, tokens.length > 1)

/-- Reduces the branches of the first conditional, if they need it. -/
def resolveConditional (settle : Settle) (tokens : List Token) :
    Reported (Option (List Token)) :=
  match splitFirst isConditional tokens with
  | some (before, .conditional whenTrue whenFalse, after) => do
    let (whenTrue, changedTrue) ← resolveBranch settle .whenTrue whenTrue
    let (whenFalse, changedFalse) ← resolveBranch settle .whenFalse whenFalse
    if changedTrue || changedFalse then
      return some (before ++ .conditional whenTrue whenFalse :: after)
    else return none
  | _ => return none

/-- Applies the signs at the start of a sequence to the operand after them, if there is one. -/
def foldSign (tokens : List Token) : Option (List Token) :=
  match tokens with
  | .operator .sub :: _ =>
    let signs := tokens.takeWhile (Token.isOperator .sub)
    match tokens.dropWhile (Token.isOperator .sub) with
    | operand :: rest =>
      if operand.isScalar then
        some ((if signs.length % 2 = 1 then negate operand else operand) :: rest)
      else none
    | [] => none
  | .operator op :: next :: rest =>
    if op.isLogicalNot then
      if next.isScalar then some (logicalNot op next :: rest)
      else match next, rest with
        | .operator .sub, operand :: rest =>
          if operand.isScalar then some (logicalNot op (negate operand) :: rest) else none
        | _, _ => none
    else none
  | _ => none

/-- Two operands side by side: texts join, numbers add, an empty text gives way. -/
def mergeAdjacent (first second : Token) : Reported Token :=
  match first, second with
  | .number n, .text s =>
    pure (if s.isEmpty then .number n else .text (String.ofList (numberText n) ++ s))
  | .text s, .number n =>
    pure (if s.isEmpty then .number n else .text (s ++ String.ofList (numberText n)))
  | .number m, .number n => pure (.number (m + n))
  | .text s, .text t => pure (.text (s ++ t))
  | .undefined, other | other, .undefined => pure other
  | first, second => do
    report (.notCombinable first.display second.display)
    pure first

/-- The branch that a condition chooses. -/
def chooseBranch (condition : Token) (whenTrue whenFalse : List Token) : Token :=
  ((if condition.toNumber != 0.0 then whenTrue else whenFalse).head?).getD .undefined

/-- Applies a binary operator after its left operand. -/
def applyOperator (lhs : Token) (op : Operator) (rest : List Token) : Reported (List Token) :=
  match rest with
  | [] => do
    report (.missingRight op)
    pure [lhs]
  | _ :: _ =>
    match op with
    | .not | .notNot =>
      match foldSign (.operator op :: rest) with
      | some folded => pure (lhs :: folded)
      | none => do
        report (.nothingToNegate op)
        pure (lhs :: rest)
    | .set | .comma => do
      report (.unexpectedOperator op)
      pure (lhs :: rest)
    | _ =>
      match (foldSign rest).getD rest with
      | .operator found :: more => do
        report (.operatorForRight op found)
        pure (lhs :: .operator found :: more)
      | rhs :: more => do
        let token ← applyBinary op lhs rhs
        pure (token :: more)
      | [] => pure [lhs]

/-- Combines the first operand of a sequence with what follows it. -/
def applyFirst (tokens : List Token) : Reported Step :=
  match tokens with
  | [] => pure .stalled
  | .operator op :: rest =>
    if op.isSign && rest.isEmpty then do
      report (.signWithoutValue op)
      pure (.progressed [.number 0.0])
    else match (if op.isSign then foldSign tokens else none) with
      | some folded => pure (.progressed folded)
      | none => do
        report (.missingLeft op)
        pure (.progressed rest)
  | .conditional _ _ :: rest => do
    report .noCondition
    pure (.progressed rest)
  | [_] => pure .stalled
  | first :: .conditional whenTrue whenFalse :: rest =>
    pure (.progressed (chooseBranch first whenTrue whenFalse :: rest))
  | first :: .operator op :: rest => do
    let tokens ← applyOperator first op rest
    pure (.progressed tokens)
  | first :: second :: rest => do
    let token ← mergeAdjacent first second
    pure (.progressed (token :: rest))

/-- Names, the first call, the first group and the first conditional in turn, if there is one of them
to rewrite. -/
def rewriteTokens (scope : Scope) (settle : Settle) (tokens : List Token) :
    Attempt (Option (List Token)) := do
  let named := tokens.any Token.isName
  let tokens ← resolveNames scope.store tokens
  let called ← resolveCall scope settle tokens
  let tokens := called.getD tokens
  let grouped ← resolveGroup settle tokens
  let tokens := grouped.getD tokens
  let chosen ← resolveConditional settle tokens
  let tokens := chosen.getD tokens
  if named || called.isSome || grouped.isSome || chosen.isSome then return some tokens
  else return none

/-- One step, with nested sequences reduced by `settle`. -/
def stepWith (scope : Scope) (settle : Settle) (tokens : List Token) : Attempt Step := do
  match ← rewriteTokens scope settle tokens with
  | some tokens => return .progressed tokens
  | none => applyFirst tokens

/-- Steps until nothing is left to reduce, at most `fuel` of them. A failure, or a sequence that cannot
be reduced further, gives null. -/
def settleWith (step : List Token → Attempt Step) (place : Place) :
    Nat → List Token → Reported (List Token)
  | 0, tokens => pure tokens
  | fuel + 1, tokens =>
    if needsReduction tokens then do
      match ← (step tokens).run with
      | .ok (.progressed tokens) => settleWith step place fuel tokens
      | .ok .stalled => do
        report (.irreducible place (describe tokens))
        pure [.undefined]
      | .error failure => do
        report (.failedIn place failure)
        pure [.undefined]
    else pure tokens

/-- One step of a sequence with so many levels of nesting left, its own included. -/
def reduce (scope : Scope) (limit : Nat) : Nat → List Token → Attempt Step
  | 0, _ => throw (.nestingTooDeep limit)
  | levels + 1, tokens =>
    stepWith scope
      (fun place inner =>
        settleWith (reduce scope limit levels) place (sequenceWeight inner) inner)
      tokens

/-- Steps at the root, where a failure ends the evaluation. -/
def drive (step : List Token → Attempt Step) : Nat → List Token → Attempt (List Token)
  | 0, tokens => pure tokens
  | fuel + 1, tokens =>
    if needsReduction tokens then do
      match ← step tokens with
      | .progressed tokens => drive step fuel tokens
      | .stalled => throw (.stalled (describe tokens))
    else pure tokens

/-- The target of an assignment and the sequence whose result it gets. -/
def splitTarget : List Token → Option String × List Token
  | .name s :: .operator .set :: rest =>
    if s.isEmpty then (none, .name s :: .operator .set :: rest) else (some s, rest)
  | tokens => (none, tokens)

/-- The result that a reduced sequence stands for. -/
def resultOf (assigning : Bool) (tokens : List Token) : Reported (Option Token) :=
  match tokens with
  | [.undefined] => pure none
  | [token] =>
    if token.isScalar then pure (some token)
    else do
      report (.ambiguousResult (describe tokens))
      pure none
  | [] =>
    if assigning then do
      report (.ambiguousResult (describe tokens))
      pure none
    else pure none
  | _ => do
    report (.ambiguousResult (describe tokens))
    pure none

/-- The result of a sequence, and the variables after it. Only an assignment at the root writes to them:
the result, or null if there is none. -/
def evaluateTokens (limit : Nat) (scope : Scope) (tokens : List Token) :
    Reported (Token × Table Value) := do
  let (target, body) := splitTarget tokens
  let result ←
    match ← (drive (reduce scope limit limit) (sequenceWeight body) body).run with
    | .ok reduced => resultOf target.isSome reduced
    | .error failure => do
      report (.aborted failure)
      pure none
  match target with
  | none => pure (result.getD .undefined, scope.store)
  | some name => do
    let value := (result.map Token.toValue).getD .null
    if value.isNull then report (.nothingToAssign name)
    pure (result.getD .undefined, scope.store.insert name value)

end Reckon
