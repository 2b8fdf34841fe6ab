import Reckon.Proofs.EvaluationOutcome
import Reckon.Proofs.ReductionProgress

/-!
The sequences that a step reduces inside its own.

A step hands the arguments of its first call, the interior of its first group and the longer branches of
its first conditional to whatever reduces nested sequences. It depends on that only through what it
makes of these sequences, and all failures that it reports are reported there.
-/

namespace Reckon

/-! Settling a nested sequence is the loop at the root with its failure reported and made null. -/

/-- What becomes of the outcome of a nested sequence. -/
def contain (place : Place) : Except Failure (List Token) → Reported (List Token)
  | .ok reduced => pure reduced
  | .error failure => do
    report (.failedIn place failure)
    pure [.undefined]

theorem settleWith_eq_drive_of {step : List Token → Attempt Step}
    (hstep : ∀ tokens, needsReduction tokens → (step tokens).run.result ≠ .ok .stalled)
    (place : Place) (fuel : Nat) (tokens : List Token) :
    settleWith step place fuel tokens = (drive step fuel tokens).run >>= contain place := by
  induction fuel generalizing tokens with
  | zero => rfl
  | succ fuel ih =>
    simp only [settleWith, drive]
    split
    · rename_i hn
      simp only [ExceptT.run_bind, bind_assoc]
      apply Reported.bind_congr
      cases ha : (step tokens).run.result with
      | error failure => rfl
      | ok outcome =>
        cases outcome with
        | stalled => exact absurd ha (hstep tokens hn)
        | progressed after => exact ih after
    · rfl

theorem settleWith_eq_drive (scope : Scope) (limit levels : Nat) (place : Place) (fuel : Nat)
    (tokens : List Token) :
    settleWith (reduce scope limit levels) place fuel tokens =
      (drive (reduce scope limit levels) fuel tokens).run >>= contain place :=
  settleWith_eq_drive_of (fun _ hn => reduce_ne_stalled scope limit levels hn) place fuel tokens

/-! What a step comes to. -/

/-- The sequence that is left when the names of a step are replaced and its first call is performed. -/
def AfterCall (scope : Scope) (settle : Settle) (tokens called : List Token) : Prop :=
  ∃ outcome, (resolveCall scope settle (resolveNames scope.store tokens).result).run.result =
    .ok outcome ∧ called = outcome.getD (resolveNames scope.store tokens).result

/-- The sequence that is left when the first group is reduced, too. -/
def grouped (settle : Settle) (called : List Token) : List Token :=
  (resolveGroup settle called).result.getD called

/-- The sequences that a step reduces inside its own, each in its place. -/
inductive Delegates (scope : Scope) (settle : Settle) (tokens : List Token) :
    Place → List Token → Prop where
  | argument {before arguments after slot : List Token} {s : String} {function : Function} :
      splitFirst isCall (resolveNames scope.store tokens).result =
        some (before, .call s arguments, after) →
      s.isEmpty = false → scope.functions.get? s = some function →
      slot ∈ splitArguments arguments → Delegates scope settle tokens .argument slot
  | parentheses {called before inner after : List Token} :
      AfterCall scope settle tokens called →
      splitFirst isGroup called = some (before, .group inner, after) →
        Delegates scope settle tokens .parentheses inner
  | branch {called before whenTrue whenFalse after branch : List Token} :
      AfterCall scope settle tokens called →
      splitFirst isConditional (grouped settle called) =
        some (before, .conditional whenTrue whenFalse, after) →
      branch = whenTrue ∨ branch = whenFalse → 1 < branch.length →
        Delegates scope settle tokens .branch branch

section Phases

variable {scope : Scope} {settle : Settle} {tokens called after : List Token}

theorem AfterCall.rewritesTo (h : AfterCall scope settle tokens called) :
    RewritesTo scope settle tokens called := by
  obtain ⟨outcome, houtcome, rfl⟩ := h
  exact (rewritesTo_resolveNames scope settle tokens).trans
    (rewrites_phase (rewrites_of_resolveCall houtcome)).1

theorem rewritesTo_grouped (scope : Scope) (settle : Settle) (called : List Token) :
    RewritesTo scope settle called (grouped settle called) :=
  (rewrites_phase (rewrites_of_resolveGroup scope settle called)).1

/-- What a step leaves is what its parts leave in turn, or the first operand was combined. -/
theorem afterCall_of_stepWith
    (h : (stepWith scope settle tokens).run.result = .ok (.progressed after)) :
    (∃ called, AfterCall scope settle tokens called ∧
      after = (resolveConditional settle (grouped settle called)).result.getD
        (grouped settle called)) ∨
    (Settled tokens ∧ .progressed after = (applyFirst tokens).result) := by
  simp only [stepWith, ExceptT.run_bind, Reported.result_bind] at h
  split at h
  case h_2 => simp at h
  rename_i outcome ho
  rcases rewriteTokens_cases ho with ⟨after', rfl, -⟩ | ⟨rfl, hsettled⟩
  · obtain rfl : after' = after := by simpa using h
    simp only [rewriteTokens, ExceptT.run_bind, ExceptT.run_liftM, bind_map_left,
      Reported.result_bind] at ho
    split at ho
    case h_2 => simp at ho
    rename_i called hcalled
    simp only [apply_ite ExceptT.run, ExceptT.run_pure, Reported.result_bind] at ho
    split at ho
    · exact .inl ⟨_, ⟨called, hcalled, rfl⟩, by simpa [grouped] using ho.symm⟩
    · simp at ho
  · exact .inr ⟨hsettled, by simpa using h.symm⟩

end Phases

/-! A step depends on nested sequences through what is made of them. -/

theorem Attempt.bind_congr {α β : Type} {x y : Attempt α} {f g : α → Attempt β} (h : x = y)
    (hf : ∀ a, x.run.result = .ok a → f a = g a) : x >>= f = y >>= g := by
  subst h
  apply ExceptT.ext
  simp only [ExceptT.run_bind]
  apply Reported.bind_congr
  cases hx : x.run.result with
  | ok a => exact congrArg ExceptT.run (hf a hx)
  | error failure => rfl

section Congr

variable {scope : Scope} {settle settle' : Settle} {tokens : List Token}

theorem argumentValues_congr {arguments : List (List Token)}
    (h : ∀ slot ∈ arguments, settle .argument slot = settle' .argument slot) :
    argumentValues settle arguments = argumentValues settle' arguments := by
  induction arguments with
  | nil => rfl
  | cons slot rest ih =>
    rw [List.forall_mem_cons] at h
    rw [argumentValues, argumentValues, h.1, ih h.2]

theorem resolveCall_congr
    (h : ∀ before s arguments after function slot,
      splitFirst isCall tokens = some (before, .call s arguments, after) → s.isEmpty = false →
      scope.functions.get? s = some function → slot ∈ splitArguments arguments →
        settle .argument slot = settle' .argument slot) :
    resolveCall scope settle tokens = resolveCall scope settle' tokens := by
  unfold resolveCall
  split
  · rename_i before s arguments after hsplit
    refine Attempt.bind_congr ?_ fun _ _ => rfl
    unfold performCall
    split
    · rfl
    · rename_i hs
      split
      · rfl
      · rename_i function hf
        rw [argumentValues_congr fun slot hslot =>
          h before s arguments after function slot hsplit (Bool.eq_false_iff.mpr hs) hf hslot]
  · rfl

theorem resolveGroup_congr
    (h : ∀ before inner after, splitFirst isGroup tokens = some (before, .group inner, after) →
      settle .parentheses inner = settle' .parentheses inner) :
    resolveGroup settle tokens = resolveGroup settle' tokens := by
  unfold resolveGroup
  split
  · rename_i before inner after hsplit
    rw [h before inner after hsplit]
  · rfl

theorem resolveBranch_congr (branch : Branch)
    (h : 1 < tokens.length → settle .branch tokens = settle' .branch tokens) :
    resolveBranch settle branch tokens = resolveBranch settle' branch tokens := by
  unfold resolveBranch
  split
  · rename_i hlong
    rw [h hlong]
  · rfl

theorem resolveConditional_congr
    (h : ∀ before whenTrue whenFalse after branch,
      splitFirst isConditional tokens = some (before, .conditional whenTrue whenFalse, after) →
      branch = whenTrue ∨ branch = whenFalse → 1 < branch.length →
        settle .branch branch = settle' .branch branch) :
    resolveConditional settle tokens = resolveConditional settle' tokens := by
  unfold resolveConditional
  split
  · rename_i before whenTrue whenFalse after hsplit
    rw [resolveBranch_congr .whenTrue (h before whenTrue whenFalse after whenTrue hsplit (.inl rfl)),
      resolveBranch_congr .whenFalse (h before whenTrue whenFalse after whenFalse hsplit (.inr rfl))]
  · rfl

theorem rewriteTokens_congr
    (h : ∀ place inner, Delegates scope settle tokens place inner →
      settle place inner = settle' place inner) :
    rewriteTokens scope settle tokens = rewriteTokens scope settle' tokens := by
  unfold rewriteTokens
  refine Attempt.bind_congr rfl fun named hnamed => ?_
  obtain rfl : (resolveNames scope.store tokens).result = named := Except.ok.inj hnamed
  refine Attempt.bind_congr ?_ fun outcome houtcome => ?_
  · exact resolveCall_congr fun _ _ _ _ _ slot hsplit hs hf hslot =>
      h .argument slot (.argument hsplit hs hf hslot)
  · have hcalls : AfterCall scope settle tokens _ := ⟨outcome, houtcome, rfl⟩
    dsimp only
    have hgroup := resolveGroup_congr fun _ inner _ hsplit =>
      h .parentheses inner (.parentheses hcalls hsplit)
    have hconditional := resolveConditional_congr fun _ _ _ _ branch hsplit hbranch hlong =>
      h .branch branch (.branch hcalls hsplit hbranch hlong)
    refine Attempt.bind_congr (congrArg liftM hgroup) fun outcome' houtcome' => ?_
    obtain rfl := Except.ok.inj houtcome'
    exact Attempt.bind_congr (congrArg liftM hconditional) fun _ _ => rfl

/-- Two ways to reduce nested sequences give the same step if they agree on those of the step. -/
theorem stepWith_congr
    (h : ∀ place inner, Delegates scope settle tokens place inner →
      settle place inner = settle' place inner) :
    stepWith scope settle tokens = stepWith scope settle' tokens :=
  Attempt.bind_congr (rewriteTokens_congr h) fun _ _ => rfl

end Congr

/-! All failures that a step reports are reported for nested sequences. -/

theorem failure?_of_applyFirst {tokens : List Token} (hp : ∀ t ∈ tokens, t.isPlain) :
    (applyFirst tokens).AllCauses fun cause => cause.failure? = none := by
  -- No operator depends on the limit, so a failure here would be that of every limit.
  have hexpected (limit : Nat) := (keeps_expected ⟨.empty, .empty⟩ limit).allCauses_applyFirst hp
    ((allEvery_tokenAt false tokens).mono fun _ _ _ => trivial)
  have hnone {failure : Failure}
      (h : ∀ limit, failure.Expected ⟨.empty, .empty⟩ limit) : False := by
    have hlimit (limit : Nat) : failure = .nestingTooDeep limit := by
      rcases h limit with he | ⟨s, function, values, hf, -⟩
      · exact he
      · simp [Table.get?, Table.empty] at hf
    simpa using (hlimit 0).symm.trans (hlimit 1)
  intro d hd
  have hcause (limit : Nat) := hexpected limit d hd
  cases hd : d.cause with
  | aborted failure | failedIn _ failure =>
    simp only [hd, Cause.Expected] at hcause
    exact (hnone hcause).elim
  | _ => rfl

section Causes

variable {scope : Scope} {settle : Settle} {tokens : List Token} {Q : Cause → Prop}

theorem allCauses_argumentValues {arguments : List (List Token)} :
    (argumentValues settle arguments).AllCauses Q ↔
      ∀ slot ∈ arguments, (settle .argument slot).AllCauses Q := by
  induction arguments with
  | nil => simp [argumentValues]
  | cons slot rest ih => simp [argumentValues, ih]

variable (hQ : ∀ cause : Cause, cause.failure? = none → Q cause)

include hQ

theorem allCauses_resolveNames (store : Table Value) : (resolveNames store tokens).AllCauses Q := by
  have hlookup (s : String) : (lookup store s).AllCauses Q := by
    unfold lookup
    split
    · simp
    · simp
    · split
      · simp
      · simpa using hQ (.unknownVariable s _) rfl
  induction tokens with
  | nil => simp [resolveNames]
  | cons t rest ih =>
    cases t with
    | name s => simp [resolveNames, hlookup, ih]
    | undefined | number _ | text _ | operator _ | call _ _ | group _ | conditional _ _ =>
      simp [resolveNames, ih]

theorem allCauses_performCall {s : String} {arguments : List Token} :
    (performCall scope settle s arguments).run.AllCauses Q ↔
      (s.isEmpty = false → ∀ function, scope.functions.get? s = some function →
        ∀ slot ∈ splitArguments arguments, (settle .argument slot).AllCauses Q) := by
  unfold performCall
  split
  · rename_i hs
    simpa [ExceptT.run_bind, hs] using hQ .unnamedCall rfl
  · rename_i hs
    cases hf : scope.functions.get? s with
    | none =>
      simpa [ExceptT.run_bind] using hQ (.unknownFunction s _) rfl
    | some function =>
      simp only [ExceptT.run_bind, ExceptT.run_liftM, bind_map_left, Reported.allCauses_bind,
        allCauses_argumentValues]
      rw [and_iff_left (by split <;> simp)]
      simp [hs]

theorem allCauses_resolveCall :
    (resolveCall scope settle tokens).run.AllCauses Q ↔
      ∀ before s arguments after function slot,
        splitFirst isCall tokens = some (before, .call s arguments, after) → s.isEmpty = false →
        scope.functions.get? s = some function → slot ∈ splitArguments arguments →
          (settle .argument slot).AllCauses Q := by
  unfold resolveCall
  split
  · rename_i before s arguments after hsplit
    simp only [ExceptT.run_bind, Reported.allCauses_bind, allCauses_performCall hQ]
    rw [and_iff_left (by split <;> simp)]
    refine ⟨?_, fun h hs function hf slot hslot =>
      h before s arguments after function slot hsplit hs hf hslot⟩
    intro h _ _ _ _ function slot hsplit' hs hf hslot
    cases hsplit.symm.trans hsplit'
    exact h hs function hf slot hslot
  · rename_i hsplit
    refine iff_of_true (by simp) fun before s arguments after _ _ h => ?_
    exact absurd h (hsplit before s arguments after)

theorem allCauses_resolveGroup :
    (resolveGroup settle tokens).AllCauses Q ↔
      ∀ before inner after, splitFirst isGroup tokens = some (before, .group inner, after) →
        (settle .parentheses inner).AllCauses Q := by
  unfold resolveGroup
  split
  · rename_i before inner after hsplit
    simp only [Reported.allCauses_bind]
    rw [and_iff_left]
    · refine ⟨?_, fun h => h before inner after hsplit⟩
      intro h _ _ _ hsplit'
      cases hsplit.symm.trans hsplit'
      exact h
    · split
      · simpa using hQ .nullParentheses rfl
      · simp
      · simpa using hQ .emptyParentheses rfl
  · rename_i hsplit
    exact iff_of_true (by simp) fun before inner after h => absurd h (hsplit before inner after)

theorem allCauses_resolveBranch (branch : Branch) :
    (resolveBranch settle branch tokens).AllCauses Q ↔
      (1 < tokens.length → (settle .branch tokens).AllCauses Q) := by
  have hwithout := hQ (.branchWithoutValue branch) rfl
  unfold resolveBranch
  split
  · rename_i hlong
    rw [Reported.allCauses_bind, and_iff_left, forall_prop_of_true hlong]
    dsimp only
    split <;> simp [hwithout]
  · rename_i hshort
    refine iff_of_true ?_ fun hlong => absurd hlong hshort
    rw [pure_bind]
    dsimp only
    split <;> simp [hwithout]

theorem allCauses_resolveConditional :
    (resolveConditional settle tokens).AllCauses Q ↔
      ∀ before whenTrue whenFalse after branch,
        splitFirst isConditional tokens = some (before, .conditional whenTrue whenFalse, after) →
        branch = whenTrue ∨ branch = whenFalse → 1 < branch.length →
          (settle .branch branch).AllCauses Q := by
  unfold resolveConditional
  split
  · rename_i before whenTrue whenFalse after hsplit
    simp only [Reported.allCauses_bind, allCauses_resolveBranch hQ]
    rw [← and_assoc, and_iff_left (by split <;> simp)]
    constructor
    · rintro ⟨htrue, hfalse⟩ _ _ _ _ branch hsplit' hbranch hlong
      cases hsplit.symm.trans hsplit'
      rcases hbranch with rfl | rfl
      · exact htrue hlong
      · exact hfalse hlong
    · intro h
      exact ⟨h before whenTrue whenFalse after whenTrue hsplit (.inl rfl),
        h before whenTrue whenFalse after whenFalse hsplit (.inr rfl)⟩
  · rename_i hsplit
    refine iff_of_true (by simp) fun before whenTrue whenFalse after _ h => ?_
    exact absurd h (hsplit before whenTrue whenFalse after)

theorem allCauses_rewriteTokens :
    (rewriteTokens scope settle tokens).run.AllCauses Q ↔
      (resolveCall scope settle (resolveNames scope.store tokens).result).run.AllCauses Q ∧
        ∀ called, AfterCall scope settle tokens called → (resolveGroup settle called).AllCauses Q ∧
          (resolveConditional settle (grouped settle called)).AllCauses Q := by
  simp only [rewriteTokens, ExceptT.run_bind, ExceptT.run_liftM, bind_map_left,
    Reported.allCauses_bind, allCauses_resolveNames hQ, true_and]
  refine and_congr_right fun _ => ?_
  cases hcall : (resolveCall scope settle (resolveNames scope.store tokens).result).run.result with
  | error failure => simp [AfterCall, hcall]
  | ok outcome =>
    simp only [Reported.allCauses_bind]
    rw [← and_assoc, and_iff_left (by split <;> simp)]
    constructor
    · rintro h _ ⟨outcome', houtcome', rfl⟩
      obtain rfl := Except.ok.inj (hcall.symm.trans houtcome')
      exact h
    · exact fun h => h _ ⟨outcome, hcall, rfl⟩

theorem allCauses_rewriteTokens_iff :
    (rewriteTokens scope settle tokens).run.AllCauses Q ↔
      ∀ place inner, Delegates scope settle tokens place inner → (settle place inner).AllCauses Q := by
  rw [allCauses_rewriteTokens hQ, allCauses_resolveCall hQ]
  constructor
  · rintro ⟨hcall, hcalled⟩ place inner hdelegates
    cases hdelegates with
    | argument hsplit hs hf hslot => exact hcall _ _ _ _ _ inner hsplit hs hf hslot
    | parentheses hcalls hsplit =>
      exact (allCauses_resolveGroup hQ).mp (hcalled _ hcalls).1 _ inner _ hsplit
    | branch hcalls hsplit hbranch hlong =>
      exact (allCauses_resolveConditional hQ).mp (hcalled _ hcalls).2 _ _ _ _ inner hsplit hbranch
        hlong
  · intro h
    refine ⟨fun _ _ _ _ _ slot hsplit hs hf hslot => h .argument slot (.argument hsplit hs hf hslot),
      fun called hcalls => ⟨?_, ?_⟩⟩
    · exact (allCauses_resolveGroup hQ).mpr fun _ inner _ hsplit =>
        h .parentheses inner (.parentheses hcalls hsplit)
    · exact (allCauses_resolveConditional hQ).mpr fun _ _ _ _ branch hsplit hbranch hlong =>
        h .branch branch (.branch hcalls hsplit hbranch hlong)

/-- A cause that tells of no failure apart, a step reports just what is reported for the sequences that
it reduces inside its own. -/
theorem allCauses_stepWith :
    (stepWith scope settle tokens).run.AllCauses Q ↔
      ∀ place inner, Delegates scope settle tokens place inner → (settle place inner).AllCauses Q := by
  rw [← allCauses_rewriteTokens_iff hQ]
  simp only [stepWith, ExceptT.run_bind, Reported.allCauses_bind]
  refine and_iff_left ?_
  cases h : (rewriteTokens scope settle tokens).run.result with
  | error failure => simp
  | ok outcome =>
    rcases rewriteTokens_cases h with ⟨after, rfl, -⟩ | ⟨rfl, hsettled⟩
    · simp
    · simp only [ExceptT.run_liftM, Reported.allCauses_map]
      exact fun d hd => hQ d.cause (failure?_of_applyFirst hsettled.plain d hd)

end Causes

end Reckon
