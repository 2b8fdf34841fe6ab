import Reckon.Reduction

/-!
An evaluator that is used again.

It keeps the variables and the diagnostics from one evaluation to the next, and one counter of the steps
that stand inside each other. A step raises the counter when it begins and lowers it when it ends, also
when it fails, and that the counter is at the limit is all that stops nesting. So a step that did not
lower it would take a level of nesting from every later evaluation.

Nothing here bounds the number of steps. A computation gives nothing just if it does not end.
-/

namespace Reckon

/-- An evaluator, and how deep its reduction stands. The notes tell what the counter was at the start and at
the end of the work of each step. They are only written. -/
structure Evaluator where
  scope : Scope
  limit : Nat
  diagnostics : List Diagnostic
  depth : Nat
  notes : List Nat

namespace Evaluator

/-- An evaluator before its first evaluation. -/
def fresh (scope : Scope) (limit : Nat) : Evaluator := ⟨scope, limit, [], 0, []⟩

def raise (e : Evaluator) : Evaluator := { e with depth := e.depth + 1 }

def lower (e : Evaluator) : Evaluator := { e with depth := e.depth - 1 }

def note (e : Evaluator) : Evaluator := { e with notes := e.notes ++ [e.depth] }

/-- Adds a diagnostic to those that are kept. -/
def report (e : Evaluator) (cause : Cause) : Evaluator :=
  { e with diagnostics := e.diagnostics ++ [⟨cause, none⟩] }

/-- A result whose diagnostics are added to those that are kept. -/
def keep {α : Type} (e : Evaluator) (x : Reported α) : Option (α × Evaluator) :=
  some (x.result, { e with diagnostics := e.diagnostics ++ x.diagnostics })

mutual

/-- Steps until nothing is left to reduce. A failure, or a sequence that cannot be reduced further, gives
null. -/
def reduceToSingle (e : Evaluator) (place : Place) (tokens : List Token) :
    Option (List Token × Evaluator) :=
  if needsReduction tokens then do
    match ← e |>.reduce tokens with
    | (.ok (.progressed tokens), e) => e |>.reduceToSingle place tokens
    | (.ok .stalled, e) => some ([.undefined], e.report (.irreducible place (describe tokens)))
    | (.error failure, e) => some ([.undefined], e.report (.failedIn place failure))
  else some (tokens, e)
partial_fixpoint

/-- One step, counted while it is at work. -/
def reduce (e : Evaluator) (tokens : List Token) : Option (Except Failure Step × Evaluator) :=
  let e := e.raise
  if e.limit < e.depth then some (.error (.nestingTooDeep e.limit), e.lower)
  else do
    let (outcome, e) ← e.note |>.reduceInner tokens
    some (outcome, e.note.lower)
partial_fixpoint

/-- Names, the first call, the first group and the first conditional in turn, and only if there is nothing
of these to rewrite the first operand with what follows it. -/
def reduceInner (e : Evaluator) (tokens : List Token) :
    Option (Except Failure Step × Evaluator) := do
  let named := tokens.any Token.isName
  let (tokens, e) ← e.keep (resolveNames e.scope.store tokens)
  match ← e |>.resolveCall tokens with
  | (.error failure, e) => some (.error failure, e)
  | (.ok called, e) =>
    let tokens := called.getD tokens
    let (grouped, e) ← e |>.resolveGroup tokens
    let tokens := grouped.getD tokens
    let (chosen, e) ← e |>.resolveConditional tokens
    let tokens := chosen.getD tokens
    if named || called.isSome || grouped.isSome || chosen.isSome then
      some (.ok (.progressed tokens), e)
    else
      let (step, e) ← e.keep (applyFirst tokens)
      some (.ok step, e)
partial_fixpoint

/-- Performs the first call of a sequence, if there is one. -/
def resolveCall (e : Evaluator) (tokens : List Token) :
    Option (Except Failure (Option (List Token)) × Evaluator) :=
  match splitFirst isCall tokens with
  | some (before, .call name arguments, after) => do
    match ← e |>.callFunction name arguments with
    | (.error failure, e) => some (.error failure, e)
    | (.ok token, e) => some (.ok (some (before ++ token :: after)), e)
  | _ => some (.ok none, e)
partial_fixpoint

/-- Performs a call. Failures of the arguments stay in the arguments, that of the function does not. -/
def callFunction (e : Evaluator) (name : String) (arguments : List Token) :
    Option (Except Failure Token × Evaluator) :=
  if name.isEmpty then some (.ok .undefined, e.report .unnamedCall)
  else match e.scope.functions.get? name with
    | none =>
      let hint := suggestionSuffix name e.scope.functions.names
      some (.ok .undefined, e.report (.unknownFunction name hint))
    | some function => do
      let (values, e) ← e |>.argumentValues (splitArguments arguments)
      some ((function values).map .ofValue, e)
partial_fixpoint

/-- The values of arguments, each null unless it comes down to one token. -/
def argumentValues (e : Evaluator) (arguments : List (List Token)) :
    Option (List Value × Evaluator) :=
  match arguments with
  | [] => some ([], e)
  | argument :: rest => do
    let (reduced, e) ← e |>.reduceToSingle .argument argument
    let value := match reduced with
      | [token] => token.toValue
      | _ => .null
    let (values, e) ← e |>.argumentValues rest
    some (value :: values, e)
partial_fixpoint

/-- Reduces the first group of a sequence, if there is one. A group without a value is taken out. -/
def resolveGroup (e : Evaluator) (tokens : List Token) : Option (Option (List Token) × Evaluator) :=
  match splitFirst isGroup tokens with
  | some (before, .group inner, after) => do
    let (inner, e) ← e |>.reduceToSingle .parentheses inner
    match inner.getLast? with
    | some .undefined => some (some (before ++ after), e.report .nullParentheses)
    | some token => some (some (before ++ token :: after), e)
    | none => some (some (before ++ after), e.report .emptyParentheses)
  | _ => some (none, e)
partial_fixpoint

/-- Reduces a branch of more than one token, and gives an empty one a value. The flag tells whether the
branch has changed. -/
def resolveBranch (e : Evaluator) (branch : Branch) (tokens : List Token) :
    Option ((List Token × Bool) × Evaluator) := do
  let (reduced, e) ←
    if tokens.length > 1 then e |>.reduceToSingle .branch tokens else some (tokens, e)
  if reduced.isEmpty then some (([.undefined], true), e.report (.branchWithoutValue branch))
  else some ((reduced, tokens.length > 1), e)
partial_fixpoint

/-- Reduces the branches of the first conditional, if they need it. -/
def resolveConditional (e : Evaluator) (tokens : List Token) :
    Option (Option (List Token) × Evaluator) :=
  match splitFirst isConditional tokens with
  | some (before, .conditional whenTrue whenFalse, after) => do
    let ((whenTrue, changedTrue), e) ← e |>.resolveBranch .whenTrue whenTrue
    let ((whenFalse, changedFalse), e) ← e |>.resolveBranch .whenFalse whenFalse
    if changedTrue || changedFalse then
      some (some (before ++ .conditional whenTrue whenFalse :: after), e)
    else some (none, e)
  | _ => some (none, e)
partial_fixpoint

end

/-- Steps at the root, where a failure ends the evaluation. -/
def drive (e : Evaluator) (tokens : List Token) :
    Option (Except Failure (List Token) × Evaluator) :=
  if needsReduction tokens then do
    match ← e.reduce tokens with
    | (.ok (.progressed tokens), e) => e |>.drive tokens
    | (.ok .stalled, e) => some (.error (.stalled (describe tokens)), e)
    | (.error failure, e) => some (.error failure, e)
  else some (.ok tokens, e)
partial_fixpoint

/-- The result that the outcome of the loop at the root comes to. -/
def conclude (e : Evaluator) (assigning : Bool) :
    Except Failure (List Token) → Option (Option Token × Evaluator)
  | .ok reduced => e.keep (resultOf assigning reduced)
  | .error failure => some (none, e.report (.aborted failure))

/-- Writes a result, or null if there is none, to the target of an assignment. -/
def assign (e : Evaluator) (target : Option String) (result : Option Token) : Token × Evaluator :=
  match target with
  | none => (result.getD .undefined, e)
  | some name =>
    let value := (result.map Token.toValue).getD .null
    let e := if value.isNull then e.report (.nothingToAssign name) else e
    (result.getD .undefined, { e with scope.store := e.scope.store.insert name value })

/-- The result of a sequence. Only an assignment at the root writes to the variables. -/
def evaluate (e : Evaluator) (tokens : List Token) : Option (Token × Evaluator) := do
  let (target, body) := splitTarget tokens
  let (outcome, e) ← e.drive body
  let (result, e) ← e.conclude target.isSome outcome
  some (e.assign target result)

/-- The results of sequences that are evaluated one after the other. -/
def evaluateAll (e : Evaluator) : List (List Token) → Option (List Token × Evaluator)
  | [] => some ([], e)
  | tokens :: rest => do
    let (result, e) ← e.evaluate tokens
    let (results, e) ← e.evaluateAll rest
    some (result :: results, e)

end Evaluator
end Reckon
