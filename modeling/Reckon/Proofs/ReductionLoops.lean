import Reckon.Proofs.ReductionWeight

/-!
The loops of reduction and how they end.

A sequence that needs reduction is changed by a step or fails in it, and each step lessens its weight.
So the loops end, and the fuel they are given here is never what ends them. Every failure is that of a
function or of the limit of nesting.
-/

namespace Reckon

/-- A failure that some function of the scope gives for some values. -/
def Scope.Fails (scope : Scope) (failure : Failure) : Prop :=
  ∃ s function values, scope.functions.get? s = some function ∧ function values = .error failure

/-- The failures that reduction may meet: those of functions, and the limit of nesting. -/
def Failure.Expected (scope : Scope) (limit : Nat) (failure : Failure) : Prop :=
  failure = .nestingTooDeep limit ∨ scope.Fails failure

/-! No step is stuck. -/

theorem applyFirst_ne_stalled {tokens : List Token} (hp : ∀ t ∈ tokens, t.isPlain)
    (hn : needsReduction tokens) : (applyFirst tokens).result ≠ .stalled := by
  unfold applyFirst
  split
  · simp [needsReduction] at hn
  · split
    · simp
    · split <;> simp
  · simp
  · rename_i t hop hcond
    have ht := hp t (by simp)
    cases t with
    | operator op => exact absurd rfl (hop op)
    | conditional whenTrue whenFalse => exact absurd rfl (hcond whenTrue whenFalse)
    | undefined | number _ | text _ => simp [needsReduction] at hn
    | name _ | call _ _ | group _ => simp [Token.isPlain] at ht
  · simp
  · simp
  · simp

theorem reduce_ne_stalled (scope : Scope) (limit levels : Nat) {tokens : List Token}
    (hn : needsReduction tokens) :
    (reduce scope limit levels tokens).run.result ≠ .ok .stalled := by
  cases levels with
  | zero => simp [reduce]
  | succ levels =>
    intro h
    rcases stepWith_cases h with ⟨after, hs, -⟩ | ⟨hs, ha⟩
    · exact absurd hs (by simp)
    · exact applyFirst_ne_stalled hs.plain hn ha.symm

/-! The loops end, whatever their fuel above the weight. -/

section Loops

variable {step : List Token → Attempt Step}
  (hs : ∀ tokens after, (step tokens).run.result = .ok (.progressed after) →
    sequenceWeight after < sequenceWeight tokens)

theorem needsReduction_of_weight_zero {tokens : List Token} (h : sequenceWeight tokens = 0) :
    needsReduction tokens = false := by
  cases hr : needsReduction tokens with
  | false => rfl
  | true =>
    have := two_le_sequenceWeight hr
    omega

include hs

theorem settleWith_congr (place : Place) {m n : Nat} {tokens : List Token}
    (hm : sequenceWeight tokens ≤ m) (hn : sequenceWeight tokens ≤ n) :
    settleWith step place m tokens = settleWith step place n tokens := by
  induction m generalizing n tokens with
  | zero =>
    have hr := needsReduction_of_weight_zero (Nat.le_zero.mp hm)
    cases n <;> simp [settleWith, hr]
  | succ m ih =>
    cases hr : needsReduction tokens with
    | false => cases n <;> simp [settleWith, hr]
    | true =>
      have h₂ := two_le_sequenceWeight hr
      obtain ⟨n, rfl⟩ := Nat.exists_eq_add_one.mpr (show 0 < n by omega)
      simp only [settleWith, hr, if_true]
      apply Reported.bind_congr
      cases ha : (step tokens).run.result with
      | error failure => rfl
      | ok outcome =>
        cases outcome with
        | stalled => rfl
        | progressed after =>
          have := hs tokens after ha
          exact ih (by omega) (by omega)

theorem needsReduction_settleWith (place : Place) {fuel : Nat} {tokens : List Token}
    (hf : sequenceWeight tokens ≤ fuel) :
    needsReduction (settleWith step place fuel tokens).result = false := by
  induction fuel generalizing tokens with
  | zero => exact needsReduction_of_weight_zero (Nat.le_zero.mp hf)
  | succ fuel ih =>
    simp only [settleWith]
    split
    · simp only [Reported.result_bind]
      split
      · rename_i after ha
        have := hs tokens after ha
        exact ih (by omega)
      · rfl
      · rfl
    · rename_i hr
      simpa using hr

theorem drive_congr {m n : Nat} {tokens : List Token}
    (hm : sequenceWeight tokens ≤ m) (hn : sequenceWeight tokens ≤ n) :
    drive step m tokens = drive step n tokens := by
  induction m generalizing n tokens with
  | zero =>
    have hr := needsReduction_of_weight_zero (Nat.le_zero.mp hm)
    cases n <;> simp [drive, hr]
  | succ m ih =>
    cases hr : needsReduction tokens with
    | false => cases n <;> simp [drive, hr]
    | true =>
      have h₂ := two_le_sequenceWeight hr
      obtain ⟨n, rfl⟩ := Nat.exists_eq_add_one.mpr (show 0 < n by omega)
      simp only [drive, hr, if_true]
      apply ExceptT.ext
      simp only [ExceptT.run_bind]
      apply Reported.bind_congr
      cases ha : (step tokens).run.result with
      | error failure => rfl
      | ok outcome =>
        cases outcome with
        | stalled => rfl
        | progressed after =>
          have := hs tokens after ha
          exact congrArg ExceptT.run (ih (by omega) (by omega))

theorem needsReduction_drive {fuel : Nat} {tokens reduced : List Token}
    (hf : sequenceWeight tokens ≤ fuel)
    (h : (drive step fuel tokens).run.result = .ok reduced) : needsReduction reduced = false := by
  induction fuel generalizing tokens with
  | zero =>
    obtain rfl : tokens = reduced := by simpa [drive] using h
    exact needsReduction_of_weight_zero (Nat.le_zero.mp hf)
  | succ fuel ih =>
    simp only [drive] at h
    split at h
    · simp only [ExceptT.run_bind, Reported.result_bind] at h
      split at h
      · rename_i outcome ha
        cases outcome with
        | stalled => simp at h
        | progressed after =>
          have := hs tokens after ha
          exact ih (by omega) h
      · simp at h
    · rename_i hr
      obtain rfl : tokens = reduced := by simpa using h
      simpa using hr

end Loops

/-! The sequences that the loop at the root comes to. -/

/-- A sequence that the loop comes to by steps. -/
abbrev StepsTo (step : List Token → Attempt Step) : List Token → List Token → Prop :=
  Relation.ReflTransGen fun tokens after =>
    needsReduction tokens ∧ (step tokens).run.result = .ok (.progressed after)

section
variable {scope : Scope} {limit levels : Nat} {failure : Failure}

/-- A loop fails in a step of a sequence that it comes to. -/
theorem stepsTo_of_drive_error {fuel : Nat} {tokens : List Token}
    (h : (drive (reduce scope limit levels) fuel tokens).run.result = .error failure) :
    ∃ state, StepsTo (reduce scope limit levels) tokens state ∧
      (reduce scope limit levels state).run.result = .error failure := by
  induction fuel generalizing tokens with
  | zero => simp [drive] at h
  | succ fuel ih =>
    simp only [drive] at h
    split at h
    · rename_i hn
      simp only [ExceptT.run_bind, Reported.result_bind] at h
      split at h
      · rename_i outcome ha
        cases outcome with
        | stalled => exact absurd ha (reduce_ne_stalled scope limit levels hn)
        | progressed after =>
          obtain ⟨state, hsteps, he⟩ := ih h
          exact ⟨state, .head ⟨hn, ha⟩ hsteps, he⟩
      · rename_i failure' ha
        obtain rfl : failure' = failure := by simpa using h
        exact ⟨tokens, .refl, ha⟩
    · simp at h

/-- A loop with fuel for the weight of its sequence comes to all that steps come to. -/
theorem drive_error_of_stepsTo {fuel : Nat} {tokens state : List Token}
    (h : StepsTo (reduce scope limit levels) tokens state) (hn : needsReduction state)
    (he : (reduce scope limit levels state).run.result = .error failure)
    (hfuel : sequenceWeight tokens ≤ fuel) :
    (drive (reduce scope limit levels) fuel tokens).run.result = .error failure := by
  induction h using Relation.ReflTransGen.head_induction_on generalizing fuel with
  | refl =>
    have := two_le_sequenceWeight hn
    obtain ⟨fuel, rfl⟩ := Nat.exists_eq_add_one.mpr (show 0 < fuel by omega)
    simp [drive, hn, ExceptT.run_bind, he]
  | @head tokens after hstep _ ih =>
    have := two_le_sequenceWeight hstep.1
    have hweight := weight_lt_of_reduce hstep.2
    obtain ⟨fuel, rfl⟩ := Nat.exists_eq_add_one.mpr (show 0 < fuel by omega)
    simp only [drive, hstep.1, if_true, ExceptT.run_bind, Reported.result_bind, hstep.2]
    exact ih (by omega)

end

/-! The failures of a step, and those of the root. -/

theorem fails_of_performCall {scope : Scope} {settle : Settle} {s : String}
    {arguments : List Token} {failure : Failure}
    (h : (performCall scope settle s arguments).run.result = .error failure) :
    scope.Fails failure := by
  rw [result_performCall] at h
  split at h
  · simp at h
  · split at h
    · simp at h
    · rename_i function hf
      cases hr : function (argumentValues settle (splitArguments arguments)).result with
      | ok v => simp [hr, Except.map] at h
      | error failure' =>
        rw [hr] at h
        exact Except.error.inj h ▸ ⟨s, function, _, hf, hr⟩

theorem expected_of_reduce {scope : Scope} {limit levels : Nat} {tokens : List Token}
    {failure : Failure} (h : (reduce scope limit levels tokens).run.result = .error failure) :
    failure.Expected scope limit := by
  cases levels with
  | zero => exact .inl (by simpa [reduce] using h.symm)
  | succ levels =>
    obtain ⟨-, s, arguments, -, -, hc⟩ := performCall_of_stepWith h
    exact .inr (fails_of_performCall hc)

theorem expected_of_drive {scope : Scope} {limit levels fuel : Nat} {tokens : List Token}
    {failure : Failure}
    (h : (drive (reduce scope limit levels) fuel tokens).run.result = .error failure) :
    failure.Expected scope limit := by
  obtain ⟨state, -, he⟩ := stepsTo_of_drive_error h
  exact expected_of_reduce he

/-! Nested sequences. -/

/-- Settling is the loop at the root with its failures made null. -/
theorem result_settleWith (step : List Token → Attempt Step) (place : Place) (fuel : Nat)
    (tokens : List Token) :
    (settleWith step place fuel tokens).result =
      match (drive step fuel tokens).run.result with
      | .ok reduced => reduced
      | .error _ => [.undefined] := by
  induction fuel generalizing tokens with
  | zero => rfl
  | succ fuel ih =>
    simp only [settleWith, drive]
    split
    · simp only [ExceptT.run_bind, Reported.result_bind]
      cases (step tokens).run.result with
      | error failure => rfl
      | ok outcome =>
        cases outcome with
        | progressed after => exact ih after
        | stalled => rfl
    · rfl

/-- How sequences are settled when so many levels of nesting are left to them. -/
abbrev settleAt (scope : Scope) (limit levels : Nat) : Settle :=
  fun place inner => settleWith (reduce scope limit levels) place (sequenceWeight inner) inner

/-- The failure that leaves null in the place of a nested sequence is reported. -/
theorem failedIn_of_drive_error {scope : Scope} {limit levels fuel : Nat} {tokens : List Token}
    {failure : Failure} (place : Place)
    (h : (drive (reduce scope limit levels) fuel tokens).run.result = .error failure) :
    ⟨.failedIn place failure, none⟩ ∈
      (settleWith (reduce scope limit levels) place fuel tokens).diagnostics := by
  induction fuel generalizing tokens with
  | zero => simp [drive] at h
  | succ fuel ih =>
    simp only [drive] at h
    split at h
    · rename_i hn
      simp only [settleWith, hn, if_true, Reported.diagnostics_bind, List.mem_append]
      simp only [ExceptT.run_bind, Reported.result_bind] at h
      right
      split at h
      · rename_i outcome ha
        cases outcome with
        | stalled => exact absurd ha (reduce_ne_stalled scope limit levels hn)
        | progressed after =>
          rw [ha]
          exact ih h
      · rename_i failure' ha
        obtain rfl : failure' = failure := by simpa using h
        rw [ha]
        simp [report, Reported.report]
    · simp at h

end Reckon
