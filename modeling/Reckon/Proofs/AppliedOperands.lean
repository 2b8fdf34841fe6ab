import Reckon.Proofs.AppliedOperations

/-!
The operands that operations are performed on.

An evaluation performs an operation somewhere just if another result of it there can be told from
the evaluation. It performs them on values, with one exception: the right operand of a binary
operator may be a conditional. So evaluation keeps to values just if it never comes to such a
sequence; an operation that reports when its operand is no value makes the difference.
-/

namespace Reckon

/-! What a run gives, whatever is reported on the way. -/

/-- Two ways to reduce nested sequences that give the same. -/
def Settle.GivesSame (settle settle' : Settle) : Prop :=
  ∀ place inner, (settle place inner).result = (settle' place inner).result

section Results

variable {scope : Scope} {settle settle' : Settle} (hsame : Settle.GivesSame settle settle')

include hsame

theorem Settle.GivesSame.argumentValues (arguments : List (List Token)) :
    (argumentValues settle arguments).result = (argumentValues settle' arguments).result := by
  induction arguments with
  | nil => rfl
  | cons argument rest ih =>
    simp only [Reckon.argumentValues, Reported.result_bind, Reported.result_pure, ih,
      hsame .argument argument]

theorem Settle.GivesSame.performCall (s : String) (arguments : List Token) :
    (performCall scope settle s arguments).run.result =
      (performCall scope settle' s arguments).run.result := by
  rw [result_performCall, result_performCall]
  simp only [hsame.argumentValues]

theorem Settle.GivesSame.resolveCall (tokens : List Token) :
    (resolveCall scope settle tokens).run.result =
      (resolveCall scope settle' tokens).run.result := by
  unfold Reckon.resolveCall
  split
  · simp only [ExceptT.run_bind, Reported.result_bind, hsame.performCall]
  · rfl

theorem Settle.GivesSame.resolveGroup (tokens : List Token) :
    (resolveGroup settle tokens).result = (resolveGroup settle' tokens).result := by
  unfold Reckon.resolveGroup
  split
  · simp only [Reported.result_bind, hsame .parentheses]
  · rfl

theorem Settle.GivesSame.resolveBranch (branch : Branch) (tokens : List Token) :
    (resolveBranch settle branch tokens).result = (resolveBranch settle' branch tokens).result := by
  unfold Reckon.resolveBranch
  split
  · simp only [Reported.result_bind, hsame .branch]
  · rfl

theorem Settle.GivesSame.resolveConditional (tokens : List Token) :
    (resolveConditional settle tokens).result = (resolveConditional settle' tokens).result := by
  unfold Reckon.resolveConditional
  split
  · simp only [Reported.result_bind, hsame.resolveBranch]
  · rfl

theorem Settle.GivesSame.afterCall {tokens called : List Token}
    (h : AfterCall scope settle tokens called) : AfterCall scope settle' tokens called := by
  obtain ⟨outcome, houtcome, hcalled⟩ := h
  exact ⟨outcome, by rw [← hsame.resolveCall, houtcome], hcalled⟩

theorem Settle.GivesSame.grouped (called : List Token) :
    grouped settle called = grouped settle' called := by
  rw [Reckon.grouped, Reckon.grouped, hsame.resolveGroup]

theorem Settle.GivesSame.delegates {tokens inner : List Token} {place : Place}
    (h : Delegates scope settle tokens place inner) : Delegates scope settle' tokens place inner := by
  cases h with
  | argument hsplit hs hf hslot => exact .argument hsplit hs hf hslot
  | parentheses hcalled hsplit => exact .parentheses (hsame.afterCall hcalled) hsplit
  | branch hcalled hsplit hbranch hlong =>
    exact .branch (hsame.afterCall hcalled) (hsame.grouped _ ▸ hsplit) hbranch hlong

theorem Settle.GivesSame.rewriteTokens (tokens : List Token) :
    (rewriteTokens scope settle tokens).run.result =
      (rewriteTokens scope settle' tokens).run.result := by
  simp only [Reckon.rewriteTokens, ExceptT.run_bind, ExceptT.run_liftM, bind_map_left,
    Reported.result_bind, hsame.resolveCall]
  split
  · simp only [Reported.result_bind, hsame.resolveGroup, hsame.resolveConditional]
  · rfl

/-- The same of a step, if operands are combined to the same. -/
theorem Settle.GivesSame.stepBy {combine : List Token → Reported Step}
    (hcombine : ∀ tokens, (∀ t ∈ tokens, t.isPlain) →
      (combine tokens).result = (applyFirst tokens).result) (tokens : List Token) :
    (stepBy combine scope settle tokens).run.result =
      (stepWith scope settle' tokens).run.result := by
  simp only [Reckon.stepBy, Reckon.stepWith, ExceptT.run_bind, Reported.result_bind,
    hsame.rewriteTokens]
  cases hrewrite : (Reckon.rewriteTokens scope settle' tokens).run.result with
  | error failure => rfl
  | ok outcome =>
    rcases rewriteTokens_cases hrewrite with ⟨after, rfl, -⟩ | ⟨rfl, hsettled⟩
    · rfl
    · exact congrArg Except.ok (hcombine tokens hsettled.plain)

end Results

section Runs

variable {combine : List Token → Reported Step} {scope : Scope} {limit levels : Nat}
  {tokens current : List Token}

theorem result_settleWith_congr {step step' : List Token → Attempt Step}
    (hstep : ∀ tokens, (step tokens).run.result = (step' tokens).run.result) (place : Place)
    (fuel : Nat) (tokens : List Token) :
    (settleWith step place fuel tokens).result = (settleWith step' place fuel tokens).result := by
  induction fuel generalizing tokens with
  | zero => rfl
  | succ fuel ih =>
    simp only [settleWith]
    split
    · simp only [Reported.result_bind, hstep]
      cases (step' tokens).run.result with
      | error failure => rfl
      | ok outcome =>
        cases outcome with
        | stalled => rfl
        | progressed after => exact ih after
    · rfl

/-- The sequences inside come to the same as in an evaluation. -/
theorem givesSame_reduceBy
    (hcombine : ∀ tokens, (∀ t ∈ tokens, t.isPlain) →
      (combine tokens).result = (applyFirst tokens).result) (levels : Nat) :
    Settle.GivesSame (settleAt scope limit levels) (fun place inner =>
      settleWith (reduceBy combine scope limit levels) place (sequenceWeight inner) inner) ∧
    ∀ tokens, (reduceBy combine scope limit levels tokens).run.result =
      (reduce scope limit levels tokens).run.result := by
  have hsettle (levels : Nat) (h : ∀ tokens, (reduceBy combine scope limit levels tokens).run.result =
      (reduce scope limit levels tokens).run.result) :
      Settle.GivesSame (settleAt scope limit levels) (fun place inner =>
        settleWith (reduceBy combine scope limit levels) place (sequenceWeight inner) inner) :=
    fun place inner => result_settleWith_congr (fun tokens => (h tokens).symm) place _ inner
  induction levels with
  | zero =>
    have hzero (tokens : List Token) : (reduceBy combine scope limit 0 tokens).run.result =
        (reduce scope limit 0 tokens).run.result := by rw [reduceBy, reduce]
    exact ⟨hsettle 0 hzero, hzero⟩
  | succ levels ih =>
    have hsucc (tokens : List Token) : (reduceBy combine scope limit (levels + 1) tokens).run.result =
        (reduce scope limit (levels + 1) tokens).run.result := by
      rw [reduceBy, reduce]
      exact Settle.GivesSame.stepBy (fun place inner => (ih.1 place inner).symm) hcombine tokens
    exact ⟨hsettle (levels + 1) hsucc, hsucc⟩

theorem allCauses_stepBy {Q : Cause → Prop} (hQ : ∀ cause : Cause, cause.failure? = none → Q cause)
    {settle : Settle} (h : (stepBy combine scope settle tokens).run.AllCauses Q) :
    (∀ place inner, Delegates scope settle tokens place inner → (settle place inner).AllCauses Q) ∧
      ((rewriteTokens scope settle tokens).run.result = .ok none → (combine tokens).AllCauses Q) := by
  simp only [stepBy, ExceptT.run_bind, Reported.allCauses_bind] at h
  refine ⟨(allCauses_rewriteTokens_iff hQ).mp h.1, fun hnone => ?_⟩
  have := h.2
  rw [hnone] at this
  simpa only [ExceptT.run_liftM, Reported.allCauses_map] using this

/-- What a run reports it reports wherever it combines operands, too. -/
theorem Combines.allCauses {Q : Cause → Prop} (hQ : ∀ cause : Cause, cause.failure? = none → Q cause)
    (hcombine : ∀ tokens, (∀ t ∈ tokens, t.isPlain) →
      (combine tokens).result = (applyFirst tokens).result)
    (h : Combines scope limit levels tokens current) {fuel : Nat}
    (hfuel : sequenceWeight tokens ≤ fuel)
    (hrun : (drive (reduceBy combine scope limit levels) fuel tokens).run.AllCauses Q) :
    (combine current).AllCauses Q := by
  have hstep {levels : Nat} {tokens : List Token} {fuel : Nat} (hn : needsReduction tokens)
      (hrun : (drive (reduceBy combine scope limit levels) (fuel + 1) tokens).run.AllCauses Q) :
      (reduceBy combine scope limit levels tokens).run.AllCauses Q ∧
        ∀ after, (reduce scope limit levels tokens).run.result = .ok (.progressed after) →
          (drive (reduceBy combine scope limit levels) fuel after).run.AllCauses Q := by
    simp only [drive, hn, if_true, ExceptT.run_bind, Reported.allCauses_bind] at hrun
    refine ⟨hrun.1, fun after ha => ?_⟩
    have := hrun.2
    rw [(givesSame_reduceBy hcombine levels).2 tokens, ha] at this
    exact this
  induction h generalizing fuel with
  | @here levels tokens hn hnone =>
    obtain ⟨fuel, rfl⟩ := exists_fuel hn hfuel
    have hreduce := (hstep hn hrun).1
    rw [reduceBy] at hreduce
    exact (allCauses_stepBy hQ hreduce).2
      ((givesSame_reduceBy hcombine levels).1.rewriteTokens tokens ▸ hnone)
  | @inside levels tokens inner current place hn hdelegates _ ih =>
    obtain ⟨fuel, rfl⟩ := exists_fuel hn hfuel
    have hreduce := (hstep hn hrun).1
    have hsame := @givesSame_reduceBy combine scope limit hcombine levels
    rw [reduceBy] at hreduce
    have hinner := (allCauses_stepBy hQ hreduce).1 place inner (hsame.1.delegates hdelegates)
    have hstalled (tokens : List Token) (hn : needsReduction tokens) :=
      hsame.2 tokens ▸ reduce_ne_stalled scope limit levels hn
    rw [settleWith_eq_drive_of hstalled, Reported.allCauses_bind] at hinner
    exact ih (Nat.le_refl _) hinner.1
  | later hn ha _ ih =>
    obtain ⟨fuel, rfl⟩ := exists_fuel hn hfuel
    have := weight_lt_of_reduce ha
    exact ih (by omega) ((hstep hn hrun).2 _ ha)

end Runs

/-! Operations that report operands that are no values. -/

/-- The operations as they are, with a report wherever some operand is no value. -/
def markedOperations (cause : Cause) : Operations := fun a =>
  if a.isReduced then a.perform
  else do
    report cause
    a.perform

section Marked

variable {cause : Cause} {tokens : List Token} {a : Application}

theorem markedOperations_of_isReduced (h : a.isReduced) : markedOperations cause a = a.perform :=
  if_pos h

theorem result_markedOperations (cause : Cause) (a : Application) :
    (markedOperations cause a).result = a.perform.result := by
  unfold markedOperations
  split <;> rfl

theorem not_isReduced_of_joinsConditional (h : a.joinsConditional) : a.isReduced = false := by
  unfold Application.joinsConditional at h
  split at h
  · simp [Application.isReduced, Application.operands, Token.isValue]
  · contradiction

/-- What is joined to a conditional is just the operation in question. -/
theorem applyFirstWith_joinsConditional (ops : Operations) (h : JoinsConditional tokens a) :
    applyFirstWith ops tokens = (.progressed <| · :: tokens.drop 3) <$> ops a := by
  obtain ⟨op, lhs, rhs, rest, rfl, rfl, ha⟩ := h
  cases rhs with
  | conditional whenTrue whenFalse =>
    simp only [Application.joinsConditional, Bool.and_eq_true] at ha
    obtain ⟨hop, hlhs⟩ := ha
    have hoperator : applyOperatorWith ops lhs op (.conditional whenTrue whenFalse :: rest) =
        (· :: rest) <$> ops (.binary op lhs (.conditional whenTrue whenFalse)) := by
      cases op <;> first | rfl | contradiction
    have hfirst :
        applyFirstWith ops (lhs :: .operator op :: .conditional whenTrue whenFalse :: rest) =
          .progressed <$> applyOperatorWith ops lhs op (.conditional whenTrue whenFalse :: rest) := by
      cases lhs <;> first | rfl | contradiction
    rw [hfirst, hoperator, Functor.map_map]
    rfl
  | _ => contradiction

theorem result_applyFirstWith_marked (cause : Cause) (hp : ∀ t ∈ tokens, t.isPlain) :
    (applyFirstWith (markedOperations cause) tokens).result = (applyFirst tokens).result := by
  by_cases hjoin : ∃ a, JoinsConditional tokens a
  · obtain ⟨a, ha⟩ := hjoin
    rw [← applyFirstWith_perform hp, applyFirstWith_joinsConditional _ ha,
      applyFirstWith_joinsConditional _ ha, Reported.result_map, Reported.result_map,
      result_markedOperations]
  · rw [applyFirstWith_eq (fun a ha => markedOperations_of_isReduced ha) hp fun a ha =>
      (hjoin ⟨a, ha⟩).elim]

theorem not_allCauses_marked {Q : Cause → Prop} (hcause : ¬Q cause) (h : JoinsConditional tokens a) :
    ¬(applyFirstWith (markedOperations cause) tokens).AllCauses Q := by
  obtain ⟨-, -, -, -, -, -, hconditional⟩ := id h
  rw [applyFirstWith_joinsConditional _ h, Reported.allCauses_map, markedOperations,
    if_neg (by simp [not_isReduced_of_joinsConditional hconditional])]
  simp [hcause]

end Marked

/-! What an evaluation performs. -/

/-- Whether evaluation performs allowed operations only: others may come to anything. -/
def AppliesOnly (limit : Nat) (scope : Scope) (tokens : List Token) (allowed : Application → Prop) :
    Prop :=
  ∀ ops : Operations, (∀ a, allowed a → ops a = a.perform) →
    evaluateWith ops limit scope tokens = evaluateTokens limit scope tokens

/-- Some cause of a failure is not among those that are reported. -/
theorem exists_unreported (ds : List Diagnostic) :
    ∃ n, ∀ d ∈ ds, d.cause ≠ .aborted (.nestingTooDeep n) := by
  let limit? (d : Diagnostic) : Option Nat :=
    match d.cause with
    | .aborted (.nestingTooDeep n) => some n
    | _ => none
  obtain ⟨n, hn⟩ := Infinite.exists_notMem_finset (ds.filterMap limit?).toFinset
  refine ⟨n, fun d hd hcause => hn ?_⟩
  rw [List.mem_toFinset, List.mem_filterMap]
  exact ⟨d, hd, by simp only [limit?, hcause]⟩

/-- An operation on a conditional can be told from the evaluation. -/
theorem not_appliesOnly_reduced {limit : Nat} {scope : Scope} {tokens current : List Token}
    {a : Application} (h : Combines scope limit limit (splitTarget tokens).2 current)
    (ha : JoinsConditional current a) : ¬AppliesOnly limit scope tokens (·.isReduced) := by
  intro honly
  obtain ⟨n, hn⟩ := exists_unreported (evaluateTokens limit scope tokens).diagnostics
  have hevaluate := honly (markedOperations (.aborted (.nestingTooDeep n)))
    fun a ha => markedOperations_of_isReduced ha
  have hcauses : (evaluateWith (markedOperations (.aborted (.nestingTooDeep n))) limit scope
      tokens).AllCauses (· ≠ .aborted (.nestingTooDeep n)) := hevaluate ▸ hn
  have hmarked := h.allCauses (fun cause hcause => ?_)
    (fun tokens hp => result_applyFirstWith_marked _ hp) (Nat.le_refl _)
    ((Reported.allCauses_bind ..).mp hcauses).1
  · exact not_allCauses_marked (fun hne => hne rfl) ha hmarked
  · rintro rfl
    contradiction

/-- With the operations as they are this is evaluation itself. It performs operations on values, except
that the right operand of a binary operator may be a conditional; and on values only just if it never
comes to combine operands of which the first is joined to a conditional. -/
theorem applies_reduced (limit : Nat) (scope : Scope) (tokens : List Token) :
    evaluateWith Application.perform limit scope tokens = evaluateTokens limit scope tokens ∧
    AppliesOnly limit scope tokens (fun a => a.isReduced ∨ a.joinsConditional) ∧
    (AppliesOnly limit scope tokens (·.isReduced) ↔
      ∀ current a, Combines scope limit limit (splitTarget tokens).2 current →
        ¬JoinsConditional current a) := by
  refine ⟨evaluateWith_perform limit scope tokens, fun ops hops => ?_,
    fun honly current a hc ha => not_appliesOnly_reduced hc ha honly, fun hnone ops hops => ?_⟩
  · refine evaluateWith_eq (fun a ha => hops a (.inl ha)) fun current _ a ha => ?_
    obtain ⟨-, -, -, -, -, -, hconditional⟩ := ha
    exact hops a (.inr hconditional)
  · exact evaluateWith_eq hops fun current hc a ha => (hnone current a hc ha).elim

/-- A conditional that stands in the place of an operand counts as zero, and nothing is said of it. -/
theorem not_applies_reduced_sum :
    let f := Formula.ofSource "1 + ? 2 : 3"
    f.diagnostics = [] ∧ (f.evaluate ⟨.empty, .empty⟩).1.diagnostics = [] ∧
      (f.evaluate ⟨.empty, .empty⟩).1.value = .number 1 ∧
      ¬AppliesOnly f.limit ⟨.empty, .empty⟩ f.tokens (·.isReduced) := by
  have htokens : (Formula.ofSource "1 + ? 2 : 3").tokens =
      [.number 1, .operator .add, .conditional [.number 2] [.number 3]] := by decide +kernel
  refine ⟨by decide +kernel, by decide +kernel, by decide +kernel, ?_⟩
  rw [htokens]
  exact not_appliesOnly_reduced (.here rfl rfl) ⟨.add, _, _, [], rfl, rfl, rfl⟩

end Reckon
