import Reckon.Proofs.LocalFailures
import Reckon.Proofs.NestedReduction
import Reckon.Proofs.SourceWellFormed

/-!
When reduction meets the limit of nesting.

The limit is met by a sequence that needs reduction when no level is left to it. Reading counts the levels
below the root and reduction the root as well, so a tree that reading lets pass may take one level more
than the limit gives, and never two.
-/

namespace Reckon

/-- Reduction of a sequence with so many levels comes to one that needs it when no level is left. -/
inductive MeetsLimit (scope : Scope) (limit : Nat) : Nat → List Token → Prop where
  | here {tokens : List Token} : needsReduction tokens → MeetsLimit scope limit 0 tokens
  | inside {levels : Nat} {tokens inner : List Token} {place : Place} :
      needsReduction tokens →
      Delegates scope (settleAt scope limit levels) tokens place inner →
      MeetsLimit scope limit levels inner → MeetsLimit scope limit (levels + 1) tokens
  | later {levels : Nat} {tokens after : List Token} :
      needsReduction tokens →
      (reduce scope limit levels tokens).run.result = .ok (.progressed after) →
      MeetsLimit scope limit levels after → MeetsLimit scope limit levels tokens

/-- The causes that tell of another failure than the limit, or of none. -/
def Cause.NotTooDeep (limit : Nat) (cause : Cause) : Prop :=
  cause.failure? ≠ some (.nestingTooDeep limit)

section Meets

variable {scope : Scope} {limit levels : Nat} {tokens after : List Token}

theorem allCauses_contain {Q : Cause → Prop} (place : Place)
    (outcome : Except Failure (List Token)) :
    (contain place outcome).AllCauses Q ↔
      ∀ failure, outcome = .error failure → Q (.failedIn place failure) := by
  cases outcome with
  | ok reduced => simp [contain]
  | error failure => simp [contain]

/-- What is said of a loop and its outcome, for its limit and its failure. -/
abbrev DrivesWithin (scope : Scope) (limit levels fuel : Nat) (tokens : List Token) : Prop :=
  (drive (reduce scope limit levels) fuel tokens).run.AllCauses (Cause.NotTooDeep limit) ∧
    (drive (reduce scope limit levels) fuel tokens).run.result ≠ .error (.nestingTooDeep limit)

theorem drivesWithin_of_done (fuel : Nat) (hn : Reckon.needsReduction tokens = false) :
    DrivesWithin scope limit levels fuel tokens := by
  cases fuel with
  | zero => simp [DrivesWithin, drive]
  | succ fuel => simp [DrivesWithin, drive, hn]

theorem exists_fuel {fuel : Nat} (hn : Reckon.needsReduction tokens)
    (hfuel : sequenceWeight tokens ≤ fuel) : ∃ more, fuel = more + 1 := by
  have := two_le_sequenceWeight hn
  exact Nat.exists_eq_add_one.mpr (by omega)

theorem notTooDeep_settleAt_iff (place : Place) :
    (settleAt scope limit levels place tokens).AllCauses (Cause.NotTooDeep limit) ↔
      DrivesWithin scope limit levels (sequenceWeight tokens) tokens := by
  simp only [settleAt, settleWith_eq_drive, Reported.allCauses_bind, allCauses_contain]
  refine and_congr_right fun _ => ⟨fun h he => h _ he rfl, fun h failure he hcause => h ?_⟩
  rw [he, Option.some.inj hcause]

/-- One step of a loop: its reports, and its failure or the loop after it. -/
theorem drivesWithin_succ {fuel : Nat} (hn : Reckon.needsReduction tokens) :
    DrivesWithin scope limit levels (fuel + 1) tokens ↔
      (reduce scope limit levels tokens).run.AllCauses (Cause.NotTooDeep limit) ∧
      (reduce scope limit levels tokens).run.result ≠ .error (.nestingTooDeep limit) ∧
      ∀ after, (reduce scope limit levels tokens).run.result = .ok (.progressed after) →
        DrivesWithin scope limit levels fuel after := by
  simp only [DrivesWithin, drive, hn, if_true, ExceptT.run_bind, Reported.allCauses_bind,
    Reported.result_bind]
  rw [and_assoc]
  refine and_congr_right fun _ => ?_
  cases ha : (reduce scope limit levels tokens).run.result with
  | error failure => simp
  | ok step =>
    cases step with
    | stalled => exact absurd ha (reduce_ne_stalled scope limit levels hn)
    | progressed after => simp

theorem notTooDeep_reduce_iff :
    (reduce scope limit (levels + 1) tokens).run.AllCauses (Cause.NotTooDeep limit) ↔
      ∀ place inner, Delegates scope (settleAt scope limit levels) tokens place inner →
        DrivesWithin scope limit levels (sequenceWeight inner) inner := by
  have hQ (cause : Cause) (h : cause.failure? = none) : cause.NotTooDeep limit := by
    simp [Cause.NotTooDeep, h]
  refine (allCauses_stepWith hQ).trans ?_
  exact forall_congr' fun place => forall_congr' fun inner => imp_congr_right fun _ =>
    notTooDeep_settleAt_iff place

/-- Where the limit is met, the loop reports it or fails with it. -/
theorem MeetsLimit.not_drivesWithin (h : MeetsLimit scope limit levels tokens) {fuel : Nat}
    (hfuel : sequenceWeight tokens ≤ fuel) : ¬DrivesWithin scope limit levels fuel tokens := by
  induction h generalizing fuel with
  | here hn =>
    obtain ⟨fuel, rfl⟩ := exists_fuel hn hfuel
    rw [drivesWithin_succ hn]
    exact fun hd => hd.2.1 rfl
  | inside hn hdelegates _ ih =>
    obtain ⟨fuel, rfl⟩ := exists_fuel hn hfuel
    rw [drivesWithin_succ hn]
    exact fun hd => ih (Nat.le_refl _) (notTooDeep_reduce_iff.mp hd.1 _ _ hdelegates)
  | later hn ha _ ih =>
    obtain ⟨fuel, rfl⟩ := exists_fuel hn hfuel
    have := weight_lt_of_reduce ha
    rw [drivesWithin_succ hn]
    exact fun hd => ih (by omega) (hd.2.2 _ ha)

/-- A loop whose functions do not fail with the limit themselves keeps to it unless it meets it. -/
theorem drivesWithin_of_not_meetsLimit (hfails : ¬scope.Fails (.nestingTooDeep limit)) (fuel : Nat)
    (h : ¬MeetsLimit scope limit levels tokens) : DrivesWithin scope limit levels fuel tokens := by
  induction levels generalizing fuel tokens with
  | zero => exact drivesWithin_of_done fuel (Bool.eq_false_iff.mpr fun hn => h (.here hn))
  | succ levels ih =>
    induction fuel generalizing tokens with
    | zero => simp [DrivesWithin, drive]
    | succ fuel ihfuel =>
      cases hn : needsReduction tokens with
      | false => exact drivesWithin_of_done (fuel + 1) hn
      | true =>
        refine (drivesWithin_succ hn).mpr ⟨?_, fun ha => ?_, fun after ha => ?_⟩
        · exact notTooDeep_reduce_iff.mpr fun _ _ hdelegates =>
            ih _ fun hinner => h (.inside hn hdelegates hinner)
        · obtain ⟨-, _, _, -, -, hcall⟩ := performCall_of_stepWith ha
          exact hfails (fails_of_performCall hcall)
        · exact ihfuel fun hafter => h (.later hn ha hafter)

end Meets

namespace Formula

/-- Evaluation comes to a sequence that needs reduction when no level of nesting is left. -/
def MeetsLimit (f : Formula) (scope : Scope) : Prop :=
  Reckon.MeetsLimit scope f.limit f.limit f.body

theorem allCauses_evaluate_iff {f : Formula} {scope : Scope} :
    (∀ d ∈ (f.evaluate scope).1.diagnostics, d.cause.NotTooDeep f.limit) ↔
      DrivesWithin scope f.limit f.limit (sequenceWeight f.body) f.body := by
  have hQ (cause : Cause) (h : cause.isOrdinary) : cause.NotTooDeep f.limit := by
    simp [Cause.NotTooDeep, Cause.failure?_eq_none h]
  refine (allCauses_evaluateTokens_iff hQ f.limit scope f.tokens).trans ?_
  refine and_congr_right fun _ => ⟨fun h he => h _ he rfl, fun h failure he hcause => h ?_⟩
  rw [← Option.some.inj hcause]
  exact he

/-- The limit is reported where it is met. -/
theorem not_meetsLimit {f : Formula} {scope : Scope}
    (h : ∀ d ∈ (f.evaluate scope).1.diagnostics, d.cause.NotTooDeep f.limit) :
    ¬f.MeetsLimit scope :=
  fun hm => MeetsLimit.not_drivesWithin hm (Nat.le_refl _) (allCauses_evaluate_iff.mp h)

/-- The limit is met just if it is reported, unless some function fails with it by itself. -/
theorem meetsLimit_iff_reported {f : Formula} {scope : Scope}
    (hfails : ¬scope.Fails (.nestingTooDeep f.limit)) :
    f.MeetsLimit scope ↔ ∃ d ∈ (f.evaluate scope).1.diagnostics,
      d.cause.failure? = some (.nestingTooDeep f.limit) := by
  constructor
  · intro hm
    by_contra hnone
    exact not_meetsLimit (fun d hd hcause => hnone ⟨d, hd, hcause⟩) hm
  · rintro ⟨d, hd, hcause⟩
    by_contra hm
    exact allCauses_evaluate_iff.mpr (drivesWithin_of_not_meetsLimit hfails _ hm) d hd hcause

end Formula

end Reckon
