import Reckon.Proofs.ReductionLoops

/-!
An evaluation as its parts: the loop at the root, what its outcome comes to, and the writing of a result.

Only the loop can report a cause that is not ordinary, and the failure that ends it is reported after it.
-/

namespace Reckon

/-- All causes reported on the way to a result have a property. -/
def Reported.AllCauses {α : Type} (P : Cause → Prop) (x : Reported α) : Prop :=
  ∀ d ∈ x.diagnostics, P d.cause

namespace Reported

variable {α β : Type} {P : Cause → Prop}

@[simp] theorem allCauses_pure (a : α) : (pure a : Reported α).AllCauses P := by
  simp [AllCauses]

@[simp] theorem allCauses_bind (x : Reported α) (f : α → Reported β) :
    (x >>= f).AllCauses P ↔ x.AllCauses P ∧ (f x.result).AllCauses P := by
  simp [AllCauses, or_imp, forall_and]

@[simp] theorem allCauses_map (x : Reported α) (f : α → β) :
    (f <$> x).AllCauses P ↔ x.AllCauses P := by
  simp [AllCauses]

@[simp] theorem allCauses_report (cause : Cause) :
    (Reckon.report cause).AllCauses P ↔ P cause := by
  simp [AllCauses, Reckon.report, Reported.report]

@[simp] theorem allCauses_reportAt (start stop : Nat) (cause : Cause) :
    (reportAt start stop cause).AllCauses P ↔ P cause := by
  simp [AllCauses, reportAt, Reported.report]

@[simp] theorem allCauses_reportAt? (start stop : Nat) (cause? : Option Cause) :
    (reportAt? start stop cause?).AllCauses P ↔ ∀ cause, cause? = some cause → P cause := by
  cases cause? with
  | none => simp [reportAt?]
  | some cause => simp [reportAt?]

end Reported

/-- The causes that stand for themselves: no failure is behind them, and the rest of a sequence does
not matter. -/
def Cause.isOrdinary : Cause → Bool
  | .aborted _ | .failedIn _ _ | .irreducible _ _ | .notCombinable _ _ | .notBinary _
  | .unexpectedOperator _ => false
  | _ => true

/-- The failure that a cause tells of. -/
def Cause.failure? : Cause → Option Failure
  | .aborted failure | .failedIn _ failure => some failure
  | _ => none

theorem Cause.failure?_eq_none {cause : Cause} (h : cause.isOrdinary) : cause.failure? = none := by
  cases cause <;> simp_all [isOrdinary, failure?]

/-- The result that the outcome of the loop at the root comes to. -/
def conclude (assigning : Bool) : Except Failure (List Token) → Reported (Option Token)
  | .ok reduced => resultOf assigning reduced
  | .error failure => do
    report (.aborted failure)
    pure none

/-- Writes a result to the target of an assignment, if there is one. -/
def assign (store : Table Value) : Option String → Option Token → Reported (Token × Table Value)
  | none, result => pure (result.getD .undefined, store)
  | some name, result => do
    if ((result.map Token.toValue).getD .null).isNull then report (.nothingToAssign name)
    pure (result.getD .undefined, store.insert name ((result.map Token.toValue).getD .null))

/-- The loop at the root of an evaluation. -/
abbrev driveRoot (limit : Nat) (scope : Scope) (body : List Token) :
    Reported (Except Failure (List Token)) :=
  (drive (reduce scope limit limit) (sequenceWeight body) body).run

theorem evaluateTokens_eq (limit : Nat) (scope : Scope) (tokens : List Token) :
    evaluateTokens limit scope tokens =
      driveRoot limit scope (splitTarget tokens).2 >>= fun outcome =>
        conclude (splitTarget tokens).1.isSome outcome >>= assign scope.store (splitTarget tokens).1 := by
  unfold evaluateTokens
  rcases splitTarget tokens with ⟨target, body⟩
  apply Reported.bind_congr
  dsimp only
  cases (driveRoot limit scope body).result with
  | ok reduced => cases target <;> rfl
  | error failure =>
    simp only [conclude, bind_assoc, pure_bind]
    cases target <;> rfl

section Causes

variable {Q : Cause → Prop} (hQ : ∀ cause : Cause, cause.isOrdinary → Q cause)

include hQ

theorem allCauses_resultOf (assigning : Bool) (tokens : List Token) :
    (resultOf assigning tokens).AllCauses Q := by
  have hambiguous := hQ (.ambiguousResult (describe tokens)) rfl
  unfold resultOf
  split
  · simp
  · split <;> simp [hambiguous]
  · split <;> simp [hambiguous]
  · simp [hambiguous]

theorem allCauses_conclude (assigning : Bool) (outcome : Except Failure (List Token)) :
    (conclude assigning outcome).AllCauses Q ↔
      ∀ failure, outcome = .error failure → Q (.aborted failure) := by
  cases outcome with
  | ok reduced => exact iff_of_true (allCauses_resultOf hQ assigning reduced) nofun
  | error failure => simp [conclude]

theorem allCauses_assign (store : Table Value) (target : Option String) (result : Option Token) :
    (assign store target result).AllCauses Q := by
  cases target with
  | none => simp [assign]
  | some name =>
    have hnothing := hQ (.nothingToAssign name) rfl
    simp only [assign]
    split <;> simp [hnothing]

/-- The failures that an evaluation reports are those of its loop and the one that ends it. -/
theorem allCauses_evaluateTokens_iff (limit : Nat) (scope : Scope) (tokens : List Token) :
    (evaluateTokens limit scope tokens).AllCauses Q ↔
      (driveRoot limit scope (splitTarget tokens).2).AllCauses Q ∧
      ∀ failure, (driveRoot limit scope (splitTarget tokens).2).result = .error failure →
        Q (.aborted failure) := by
  simp only [evaluateTokens_eq, Reported.allCauses_bind, allCauses_conclude hQ]
  rw [and_iff_left (allCauses_assign hQ _ _ _)]

end Causes

end Reckon
