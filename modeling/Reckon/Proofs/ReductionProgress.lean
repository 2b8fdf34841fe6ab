import Reckon.Proofs.ReductionRuns

/-!
Reduction comes to an end and never gets stuck.

A sequence that needs reduction is changed by a step or fails in it, and each step lessens its weight.
So the loops end, and the fuel they are given here is never what ends them. The diagnostics of an
evaluation show that the branches kept for a stuck sequence are dead: no operand is met that cannot be
combined, and every failure is that of a function or of the limit of nesting.
-/

namespace Reckon

/-- The causes that evaluation may report. Operands that cannot be combined, an operator between
operands that is not binary, and a sequence that cannot be reduced are not among them. -/
def Cause.Expected (scope : Scope) (limit : Nat) : Cause → Prop
  | .irreducible _ _ | .notCombinable _ _ | .notBinary _ => False
  | .aborted failure | .failedIn _ failure => failure.Expected scope limit
  | _ => True

theorem keeps_expected (scope : Scope) (limit : Nat) :
    RunKeeps scope limit (fun _ _ => True) (Cause.Expected scope limit) where
  value _ _ := trivial
  conditional _ _ := trivial
  slot _ _ _ := trivial
  ordinary cause h := by cases cause <;> trivial
  unexpected _ _ _ := trivial
  failed _ _ h := h

theorem allCauses_evaluateTokens (limit : Nat) (scope : Scope) (tokens : List Token) :
    (evaluateTokens limit scope tokens).AllCauses (Cause.Expected scope limit) := by
  have hevery : AllEvery (fun _ _ => True) false (splitTarget tokens).2 :=
    (allEvery_tokenAt false _).mono fun _ _ _ => trivial
  exact ((keeps_expected scope limit).twin_evaluateTokens (.refl _ scope) hevery
    fun _ hfailure => expected_of_drive hfailure).causes

/-! Together: no step is stuck, no sequence has endless steps, the loops of nested sequences and of the
root run to their end, and an evaluation reports none of what only a stuck one would. -/

theorem reduction_terminates (scope : Scope) (limit : Nat) :
    (∀ levels tokens, needsReduction tokens →
      (reduce scope limit levels tokens).run.result ≠ .ok .stalled) ∧
    (∀ levels, WellFounded fun after tokens =>
      (reduce scope limit levels tokens).run.result = .ok (.progressed after)) ∧
    (∀ levels place fuel tokens, sequenceWeight tokens ≤ fuel →
      settleWith (reduce scope limit levels) place fuel tokens =
        settleWith (reduce scope limit levels) place (sequenceWeight tokens) tokens ∧
      needsReduction (settleWith (reduce scope limit levels) place fuel tokens).result = false) ∧
    (∀ levels fuel tokens, sequenceWeight tokens ≤ fuel →
      drive (reduce scope limit levels) fuel tokens =
        drive (reduce scope limit levels) (sequenceWeight tokens) tokens ∧
      match (drive (reduce scope limit levels) fuel tokens).run.result with
      | .ok reduced => needsReduction reduced = false
      | .error failure => failure.Expected scope limit) ∧
    ∀ tokens, (evaluateTokens limit scope tokens).AllCauses (Cause.Expected scope limit) := by
  refine ⟨fun levels tokens hn => reduce_ne_stalled scope limit levels hn, fun levels => ?_,
    fun levels place fuel tokens hf => ?_, fun levels fuel tokens hf => ?_,
    allCauses_evaluateTokens limit scope⟩
  · exact Subrelation.wf weight_lt_of_reduce (measure sequenceWeight).wf
  · have hs tokens after := @weight_lt_of_reduce scope limit levels tokens after
    exact ⟨settleWith_congr hs place hf (Nat.le_refl _), needsReduction_settleWith hs place hf⟩
  · have hs tokens after := @weight_lt_of_reduce scope limit levels tokens after
    refine ⟨drive_congr hs hf (Nat.le_refl _), ?_⟩
    split
    · rename_i reduced hr
      exact needsReduction_drive hs hf hr
    · rename_i failure hr
      exact expected_of_drive hr

/-- Two signs without an operand, and an operator with no operand at all. -/
theorem reduction_terminates_of_signs :
    needsReduction [.operator .sub, .operator .notNot] ∧
    (reduce ⟨.empty, .empty⟩ 1 1 [.operator .sub, .operator .notNot]).run.result ≠ .ok .stalled ∧
    needsReduction (settleWith (reduce ⟨.empty, .empty⟩ 1 1) .branch 5
      [.operator .sub, .operator .notNot]).result = false ∧
    drive (reduce ⟨.empty, .empty⟩ 1 1) 9 [.operator .sub, .operator .notNot] =
      drive (reduce ⟨.empty, .empty⟩ 1 1) 4 [.operator .sub, .operator .notNot] := by
  obtain ⟨unstuck, -, settles, drives, -⟩ := reduction_terminates ⟨.empty, .empty⟩ 1
  exact ⟨rfl, unstuck 1 _ rfl, (settles 1 .branch 5 _ (by decide)).2,
    (drives 1 9 _ (by decide)).1⟩

end Reckon
