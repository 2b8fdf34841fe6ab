import Reckon.Evaluator
import Reckon.Proofs.EvaluationOutcome

/-!
An evaluator is as good after an evaluation as before it.

Every step lowers the counter again, whether it is done, fails, or contains a failure. So the levels that are
left, the limit less the counter, are at each place those that the recursion over levels has there, all
loops end, and an evaluation depends on nothing of an evaluator but its scope and its limit.
-/

namespace Reckon
namespace Evaluator

/-- On an evaluator with this scope, limit and counter, a computation gives what was reported, adds the
diagnostics, and leaves the rest as it was. Whatever it notes is at most the limit. -/
def Follows {α : Type} (scope : Scope) (limit depth : Nat)
    (x : Evaluator → Option (α × Evaluator)) (y : Reported α) : Prop :=
  ∀ diagnostics notes, ∃ more : List Nat, (∀ n ∈ more, n ≤ limit) ∧
    x ⟨scope, limit, diagnostics, depth, notes⟩ =
      some (y.result, ⟨scope, limit, diagnostics ++ y.diagnostics, depth, notes ++ more⟩)

section Combinators

variable {α β : Type} {scope : Scope} {limit depth : Nat}

theorem Follows.keep (y : Reported α) : Follows scope limit depth (fun e => e.keep y) y :=
  fun _ notes => ⟨[], nofun, by rw [List.append_nil]; rfl⟩

theorem Follows.pure (a : α) :
    Follows scope limit depth (fun e => some (a, e)) (pure a : Reported α) :=
  fun diagnostics notes => ⟨[], nofun, by
    rw [Reported.diagnostics_pure, List.append_nil, List.append_nil]; rfl⟩

theorem Follows.bind {x : Evaluator → Option (α × Evaluator)} {y : Reported α}
    {f : α × Evaluator → Option (β × Evaluator)} {g : α → Reported β}
    (h : Follows scope limit depth x y)
    (hf : Follows scope limit depth (fun e => f (y.result, e)) (g y.result)) :
    Follows scope limit depth (fun e => x e >>= f) (y >>= g) := by
  intro diagnostics notes
  obtain ⟨first, hfirst, hx⟩ := h diagnostics notes
  obtain ⟨second, hsecond, hg⟩ := hf (diagnostics ++ y.diagnostics) (notes ++ first)
  refine ⟨first ++ second, List.forall_mem_append.mpr ⟨hfirst, hsecond⟩, ?_⟩
  dsimp only at hg ⊢
  rw [hx, Option.bind_eq_bind, Option.bind_some, hg, Reported.result_bind, Reported.diagnostics_bind,
    List.append_assoc, List.append_assoc]

/-- A result after a report. -/
theorem Follows.report (cause : Cause) (a : α) :
    Follows scope limit depth (fun e => some (a, e.report cause))
      (Reckon.report cause >>= fun _ => Pure.pure a) :=
  fun _ notes => ⟨[], nofun, by rw [List.append_nil]; rfl⟩

theorem Follows.ite {p : Prop} [Decidable p] {x x' : Evaluator → Option (α × Evaluator)}
    {y y' : Reported α} (h : p → Follows scope limit depth x y)
    (h' : ¬p → Follows scope limit depth x' y') :
    Follows scope limit depth (fun e => if p then x e else x' e) (if p then y else y') := by
  by_cases hp : p
  · simp only [if_pos hp]
    exact h hp
  · simp only [if_neg hp]
    exact h' hp

theorem run_lift_bind (y : Reported α) (g : α → Attempt β) :
    (liftM y >>= g : Attempt β).run = y >>= fun a => (g a).run := by
  simp [ExceptT.run_bind]

theorem Follows.lift {x : Evaluator → Option (α × Evaluator)} {y : Reported α}
    {f : α × Evaluator → Option (Except Failure β × Evaluator)} {g : α → Attempt β}
    (h : Follows scope limit depth x y)
    (hf : Follows scope limit depth (fun e => f (y.result, e)) (g y.result).run) :
    Follows scope limit depth (fun e => x e >>= f) (liftM y >>= g : Attempt β).run := by
  rw [run_lift_bind]
  exact h.bind hf

/-- A failure is passed on, with the evaluator as it is by then. -/
theorem Follows.attempt {x : Evaluator → Option (Except Failure α × Evaluator)} {y : Attempt α}
    {f : Except Failure α × Evaluator → Option (Except Failure β × Evaluator)} {g : α → Attempt β}
    (h : Follows scope limit depth x y.run)
    (hok : ∀ a, y.run.result = .ok a →
      Follows scope limit depth (fun e => f (.ok a, e)) (g a).run)
    (herror : ∀ failure e, f (.error failure, e) = some (.error failure, e)) :
    Follows scope limit depth (fun e => x e >>= f) (y >>= g).run := by
  rw [ExceptT.run_bind]
  refine h.bind ?_
  cases hy : y.run.result with
  | ok a => exact hok a hy
  | error failure =>
    simp only [herror]
    exact .pure _

end Combinators

section Family

variable {scope : Scope} {limit depth : Nat} {settle : Settle}
  (hs : ∀ place inner,
    Follows scope limit depth (fun e => e.reduceToSingle place inner) (settle place inner))

include hs

theorem follows_argumentValues (arguments : List (List Token)) :
    Follows scope limit depth (fun e => e.argumentValues arguments)
      (Reckon.argumentValues settle arguments) := by
  induction arguments with
  | nil =>
    unfold argumentValues
    exact .pure _
  | cons argument rest ih =>
    unfold argumentValues
    exact (hs _ _).bind (ih.bind (.pure _))

theorem follows_callFunction (name : String) (arguments : List Token) :
    Follows scope limit depth (fun e => e.callFunction name arguments)
      (performCall scope settle name arguments).run := by
  unfold callFunction performCall
  by_cases hname : name.isEmpty
  · simp only [if_pos hname, run_lift_bind]
    exact .report _ _
  · simp only [if_neg hname]
    -- The functions are those of the evaluator that the call is made on.
    intro diagnostics notes
    dsimp only
    cases scope.functions.get? name with
    | none =>
      dsimp only
      rw [run_lift_bind]
      exact Follows.report _ _ diagnostics notes
    | some function =>
      refine (follows_argumentValues hs _).lift ?_ diagnostics notes
      dsimp only
      cases function (Reckon.argumentValues settle (splitArguments arguments)).result with
      | ok value => exact .pure _
      | error failure => exact .pure _

theorem follows_resolveCall (tokens : List Token) :
    Follows scope limit depth (fun e => e.resolveCall tokens)
      (Reckon.resolveCall scope settle tokens).run := by
  unfold resolveCall Reckon.resolveCall
  rcases splitFirst isCall tokens with _ | ⟨before, t, after⟩
  · exact .pure _
  · cases t with
    | call name arguments =>
      exact (follows_callFunction hs name arguments).attempt (fun _ _ => .pure _) fun _ _ => rfl
    | _ => exact .pure _

theorem follows_resolveGroup (tokens : List Token) :
    Follows scope limit depth (fun e => e.resolveGroup tokens)
      (Reckon.resolveGroup settle tokens) := by
  unfold resolveGroup Reckon.resolveGroup
  rcases splitFirst isGroup tokens with _ | ⟨before, t, after⟩
  · exact .pure _
  · cases t with
    | group inner =>
      refine (hs .parentheses inner).bind ?_
      dsimp only
      rcases (settle .parentheses inner).result.getLast? with _ | last
      · exact .report _ _
      · cases last with
        | undefined => exact .report _ _
        | _ => exact .pure _
    | _ => exact .pure _

theorem follows_resolveBranch (branch : Branch) (tokens : List Token) :
    Follows scope limit depth (fun e => e.resolveBranch branch tokens)
      (Reckon.resolveBranch settle branch tokens) := by
  have hvalue (reduced : List Token) :
      Follows scope limit depth
        (fun e => if reduced.isEmpty then some (([.undefined], true), e.report (.branchWithoutValue branch))
          else some ((reduced, decide (tokens.length > 1)), e))
        (if reduced.isEmpty then do
          Reckon.report (.branchWithoutValue branch)
          Pure.pure ([Token.undefined], true)
        else Pure.pure (reduced, decide (tokens.length > 1))) :=
    .ite (fun _ => .report _ _) fun _ => .pure _
  unfold resolveBranch Reckon.resolveBranch
  by_cases hlong : tokens.length > 1
  · simp only [if_pos hlong]
    exact (hs .branch tokens).bind (hvalue _)
  · simp only [if_neg hlong]
    exact hvalue tokens

theorem follows_resolveConditional (tokens : List Token) :
    Follows scope limit depth (fun e => e.resolveConditional tokens)
      (Reckon.resolveConditional settle tokens) := by
  unfold resolveConditional Reckon.resolveConditional
  rcases splitFirst isConditional tokens with _ | ⟨before, t, after⟩
  · exact .pure _
  · cases t with
    | conditional whenTrue whenFalse =>
      refine (follows_resolveBranch hs .whenTrue whenTrue).bind ?_
      rcases (Reckon.resolveBranch settle .whenTrue whenTrue).result with ⟨_, _⟩
      refine (follows_resolveBranch hs .whenFalse whenFalse).bind ?_
      rcases (Reckon.resolveBranch settle .whenFalse whenFalse).result with ⟨_, _⟩
      exact .ite (fun _ => .pure _) fun _ => .pure _
    | _ => exact .pure _

omit hs in
/-- A step as one run through its parts. -/
theorem stepWith_eq (tokens : List Token) :
    stepWith scope settle tokens = (do
      let named ← (resolveNames scope.store tokens : Reported (List Token))
      let called ← Reckon.resolveCall scope settle named
      let grouped ← Reckon.resolveGroup settle (called.getD named)
      let chosen ← Reckon.resolveConditional settle (grouped.getD (called.getD named))
      if tokens.any Token.isName || called.isSome || grouped.isSome || chosen.isSome then
        return .progressed (chosen.getD (grouped.getD (called.getD named)))
      else applyFirst tokens : Attempt Step) := by
  unfold stepWith rewriteTokens
  simp only [bind_assoc]
  refine bind_congr fun named => bind_congr fun called => bind_congr fun grouped =>
    bind_congr fun chosen => ?_
  split
  · exact pure_bind ..
  · exact pure_bind ..

/-- The work of a step. If it has changed nothing so far, it goes on from the sequence that it began with. -/
theorem follows_reduceInner (tokens : List Token) :
    Follows scope limit depth (fun e => e.reduceInner tokens)
      (stepWith scope settle tokens).run := by
  have hunnamed : tokens.any Token.isName = false →
      (resolveNames scope.store tokens).result = tokens := fun h => by
    rw [resolveNames_eq_pure _ h, Reported.result_pure]
  rw [stepWith_eq]
  unfold reduceInner
  -- The variables are those of the evaluator that the step begins on.
  intro diagnostics notes
  refine (Follows.keep (resolveNames scope.store tokens)).lift ?_ diagnostics notes
  generalize (resolveNames scope.store tokens).result = named at hunnamed ⊢
  refine (follows_resolveCall hs named).attempt (fun called _ => ?_) fun _ _ => rfl
  refine (follows_resolveGroup hs _).lift ?_
  generalize (Reckon.resolveGroup settle _).result = grouped
  refine (follows_resolveConditional hs _).lift ?_
  generalize (Reckon.resolveConditional settle _).result = chosen
  by_cases hchanged :
      (tokens.any Token.isName || called.isSome || grouped.isSome || chosen.isSome) = true
  · simp only [if_pos hchanged]
    exact .pure _
  · simp only [if_neg hchanged]
    simp only [Bool.or_eq_true, not_or, Bool.not_eq_true, Option.isSome_eq_false_iff,
      Option.isNone_iff_eq_none] at hchanged
    obtain ⟨⟨⟨hnamed, rfl⟩, rfl⟩, rfl⟩ := hchanged
    rw [hunnamed hnamed, ← bind_pure (liftM (applyFirst tokens) : Attempt Step)]
    refine (Follows.keep (applyFirst tokens)).lift ?_
    exact Follows.pure (Except.ok (applyFirst tokens).result)

end Family

section Steps

variable {scope : Scope} {limit depth : Nat}

/-- A step that is within the limit raises the counter and lowers it again, whatever the outcome of its
work. -/
theorem reduce_of_lt (hdepth : depth < limit) {tokens : List Token} {outcome : Except Failure Step}
    {diagnostics after : List Diagnostic} {notes noted : List Nat}
    (h : reduceInner ⟨scope, limit, diagnostics, depth + 1, notes ++ [depth + 1]⟩ tokens =
      some (outcome, ⟨scope, limit, after, depth + 1, noted⟩)) :
    reduce ⟨scope, limit, diagnostics, depth, notes⟩ tokens =
      some (outcome, ⟨scope, limit, after, depth, noted ++ [depth + 1]⟩) := by
  rw [reduce]
  refine (if_neg (Nat.not_lt_of_le hdepth)).trans ?_
  show (reduceInner _ tokens).bind _ = _
  rw [note, raise, h]
  rfl

theorem follows_reduce_of_inner {tokens : List Token} {y : Reported (Except Failure Step)}
    (hdepth : depth < limit)
    (h : Follows scope limit (depth + 1) (fun e => e.reduceInner tokens) y) :
    Follows scope limit depth (fun e => e.reduce tokens) y := by
  intro diagnostics notes
  obtain ⟨more, hmore, hrun⟩ := h diagnostics (notes ++ [depth + 1])
  refine ⟨[depth + 1] ++ more ++ [depth + 1], ?_, ?_⟩
  · simpa [or_imp, forall_and, Nat.succ_le_of_lt hdepth] using hmore
  · rw [← List.append_assoc, ← List.append_assoc]
    exact reduce_of_lt hdepth hrun

/-- A step beyond the limit fails, with the counter lowered again. -/
theorem follows_reduce_of_limit (hdepth : limit ≤ depth) (tokens : List Token) :
    Follows scope limit depth (fun e => e.reduce tokens)
      (pure (.error (.nestingTooDeep limit))) := by
  intro diagnostics notes
  refine ⟨[], nofun, ?_⟩
  dsimp only
  rw [reduce]
  refine (if_pos (Nat.lt_succ_of_le hdepth)).trans ?_
  rw [List.append_nil, Reported.diagnostics_pure, List.append_nil]
  rfl

/-- The loop over a nested sequence ends, and contains all failures. -/
theorem follows_reduceToSingle {step : List Token → Attempt Step}
    (hstep : ∀ tokens, Follows scope limit depth (fun e => e.reduce tokens) (step tokens).run)
    (hlessens : ∀ tokens after, (step tokens).run.result = .ok (.progressed after) →
      sequenceWeight after < sequenceWeight tokens)
    (place : Place) {fuel : Nat} {tokens : List Token} (hfuel : sequenceWeight tokens ≤ fuel) :
    Follows scope limit depth (fun e => e.reduceToSingle place tokens)
      (settleWith step place fuel tokens) := by
  induction fuel generalizing tokens with
  | zero =>
    have hdone := needsReduction_of_weight_zero (Nat.le_zero.mp hfuel)
    unfold reduceToSingle
    simp only [hdone, Bool.false_eq_true, if_false]
    exact .pure _
  | succ fuel ih =>
    unfold reduceToSingle settleWith
    refine .ite (fun _ => (hstep tokens).bind ?_) fun _ => .pure _
    cases houtcome : (step tokens).run.result with
    | error failure => exact .report _ _
    | ok outcome =>
      cases outcome with
      | stalled => exact .report _ _
      | progressed after =>
        have := hlessens tokens after houtcome
        exact ih (by omega)

/-- The levels that are left to a step are the limit less the counter. -/
theorem follows_reduce (levels : Nat) (hlevels : limit - depth = levels) (tokens : List Token) :
    Follows scope limit depth (fun e => e.reduce tokens)
      (Reckon.reduce scope limit levels tokens).run := by
  induction levels generalizing depth tokens with
  | zero => exact follows_reduce_of_limit (by omega) tokens
  | succ levels ih =>
    -- Inside, the counter is one higher and the levels are one fewer, so their sum is the limit still.
    refine follows_reduce_of_inner (by omega) (follows_reduceInner (fun place inner => ?_) tokens)
    exact follows_reduceToSingle (fun _ => ih (by omega) _)
      (fun _ _ => weight_lt_of_reduce) place (Nat.le_refl _)

theorem follows_settleAt (place : Place) (inner : List Token) :
    Follows scope limit depth (fun e => e.reduceToSingle place inner)
      (settleAt scope limit (limit - depth) place inner) :=
  follows_reduceToSingle (follows_reduce _ rfl) (fun _ _ => weight_lt_of_reduce) place
    (Nat.le_refl _)

/-- A step that is within the limit notes the counter before its work and after it. -/
theorem notes_reduce (e : Evaluator) (hdepth : e.depth < e.limit) (tokens : List Token) :
    ∃ outcome after more, e.reduce tokens = some (outcome, after) ∧
      after.notes = e.notes ++ [e.depth + 1] ++ more ++ [e.depth + 1] := by
  obtain ⟨more, -, hrun⟩ :=
    follows_reduceInner follows_settleAt tokens e.diagnostics (e.notes ++ [e.depth + 1])
  exact ⟨_, _, more, reduce_of_lt hdepth hrun, rfl⟩

/-- The loop at the root ends too, with a failure if one of its steps fails. -/
theorem follows_drive {step : List Token → Attempt Step}
    (hstep : ∀ tokens, Follows scope limit depth (fun e => e.reduce tokens) (step tokens).run)
    (hlessens : ∀ tokens after, (step tokens).run.result = .ok (.progressed after) →
      sequenceWeight after < sequenceWeight tokens)
    {fuel : Nat} {tokens : List Token} (hfuel : sequenceWeight tokens ≤ fuel) :
    Follows scope limit depth (fun e => e.drive tokens) (Reckon.drive step fuel tokens).run := by
  induction fuel generalizing tokens with
  | zero =>
    have hdone := needsReduction_of_weight_zero (Nat.le_zero.mp hfuel)
    unfold drive
    simp only [hdone, Bool.false_eq_true, if_false]
    exact .pure _
  | succ fuel ih =>
    unfold drive Reckon.drive
    by_cases hneeds : needsReduction tokens
    · simp only [if_pos hneeds]
      refine (hstep tokens).attempt (fun outcome houtcome => ?_) fun _ _ => rfl
      cases outcome with
      | stalled => exact .pure _
      | progressed after =>
        have := hlessens tokens after houtcome
        exact ih (by omega)
    · simp only [if_neg hneeds]
      exact .pure _

end Steps

theorem follows_conclude {scope : Scope} {limit depth : Nat} (assigning : Bool)
    (outcome : Except Failure (List Token)) :
    Follows scope limit depth (fun e => e.conclude assigning outcome)
      (Reckon.conclude assigning outcome) := by
  cases outcome with
  | ok reduced => exact .keep _
  | error failure => exact .report _ _

theorem assign_eq (e : Evaluator) (target : Option String) (result : Option Token) :
    e.assign target result =
      ((Reckon.assign e.scope.store target result).result.1,
        { e with
          scope.store := (Reckon.assign e.scope.store target result).result.2
          diagnostics :=
            e.diagnostics ++ (Reckon.assign e.scope.store target result).diagnostics }) := by
  cases target with
  | none =>
    have hsame : (Reckon.assign e.scope.store none result).diagnostics = [] := rfl
    rw [hsame, List.append_nil]
    rfl
  | some name =>
    rw [assign, Reckon.assign]
    by_cases hnull : ((result.map Token.toValue).getD .null).isNull
    · simp only [if_pos hnull]
      rfl
    · simp only [if_neg hnull]
      show _ = (_, Evaluator.mk _ _ (e.diagnostics ++ []) _ _)
      rw [List.append_nil]
      rfl

/-- An evaluation, in terms of the scope and the limit alone. -/
theorem evaluate_eq (scope : Scope) (limit : Nat) (tokens : List Token)
    (diagnostics : List Diagnostic) (notes : List Nat) :
    ∃ more : List Nat, (∀ n ∈ more, n ≤ limit) ∧
      evaluate ⟨scope, limit, diagnostics, 0, notes⟩ tokens =
        some ((evaluateTokens limit scope tokens).result.1,
          ⟨{ scope with store := (evaluateTokens limit scope tokens).result.2 }, limit,
            diagnostics ++ (evaluateTokens limit scope tokens).diagnostics, 0, notes ++ more⟩) := by
  rw [evaluateTokens_eq, evaluate]
  rcases splitTarget tokens with ⟨target, body⟩
  have hdrive : Follows scope limit 0 (fun e => e.drive body) (driveRoot limit scope body) :=
    follows_drive (follows_reduce limit rfl) (fun _ _ => weight_lt_of_reduce) (Nat.le_refl _)
  have hconclude := @follows_conclude scope limit 0 target.isSome (driveRoot limit scope body).result
  obtain ⟨first, hfirst, hrun⟩ := hdrive diagnostics notes
  obtain ⟨second, hsecond, hresult⟩ :=
    hconclude (diagnostics ++ (driveRoot limit scope body).diagnostics) (notes ++ first)
  refine ⟨first ++ second, List.forall_mem_append.mpr ⟨hfirst, hsecond⟩, ?_⟩
  dsimp only at hrun hresult ⊢
  rw [hrun, Option.bind_eq_bind, Option.bind_some]
  dsimp only
  rw [hresult, Option.bind_eq_bind, Option.bind_some, assign_eq]
  simp only [Reported.diagnostics_bind, List.append_assoc]
  rfl

/-- A computation on an evaluator ends with the counter where it was, and all that it notes is within the
limit. -/
def Restores {α : Type} (e : Evaluator) (x : Option (α × Evaluator)) : Prop :=
  ∃ result after, x = some (result, after) ∧ after.depth = e.depth ∧
    ∃ more, after.notes = e.notes ++ more ∧ ∀ n ∈ more, n ≤ e.limit

theorem Follows.restores {α : Type} {e : Evaluator} {x : Evaluator → Option (α × Evaluator)}
    {y : Reported α} (h : Follows e.scope e.limit e.depth x y) : Restores e (x e) := by
  obtain ⟨more, hmore, hx⟩ := h e.diagnostics e.notes
  exact ⟨_, _, hx, rfl, more, rfl, hmore⟩

theorem evaluateAll_eq (scope : Scope) (limit : Nat) (sequences : List (List Token))
    (diagnostics : List Diagnostic) (notes : List Nat) (hnotes : ∀ n ∈ notes, n ≤ limit) :
    ∃ results e, evaluateAll ⟨scope, limit, diagnostics, 0, notes⟩ sequences = some (results, e) ∧
      e.scope.functions = scope.functions ∧ e.limit = limit ∧ e.depth = 0 ∧
      ∀ n ∈ e.notes, n ≤ limit := by
  induction sequences generalizing scope diagnostics notes with
  | nil => exact ⟨[], _, rfl, rfl, rfl, rfl, hnotes⟩
  | cons tokens rest ih =>
    obtain ⟨more, hmore, hrun⟩ := evaluate_eq scope limit tokens diagnostics notes
    have hall := List.forall_mem_append.mpr ⟨hnotes, hmore⟩
    obtain ⟨results, e, hrest, hkept⟩ := ih
      { scope with store := (evaluateTokens limit scope tokens).result.2 }
      (diagnostics ++ (evaluateTokens limit scope tokens).diagnostics) _ hall
    refine ⟨(evaluateTokens limit scope tokens).result.1 :: results, e, ?_, hkept⟩
    rw [evaluateAll, hrun, Option.bind_eq_bind, Option.bind_some]
    dsimp only
    rw [hrest]
    rfl

/-- An evaluator can be used again, whatever its evaluations have come to. On any evaluator each member of
the family of reduction ends with the counter where it was, and no step is at work with the counter above
the limit: each within it notes the counter as its work begins and as it ends. So after any evaluations on
a new evaluator, failed ones too, the counter is zero, and the next evaluation gives the token, the
variables and the further diagnostics that a new evaluator on the current variables gives, which are those
of `evaluateTokens`. -/
theorem reusable (scope : Scope) (limit : Nat) :
    (∀ e : Evaluator,
      (∀ tokens, Restores e (e.reduce tokens)) ∧
      (∀ place tokens, Restores e (e.reduceToSingle place tokens)) ∧
      (∀ name arguments, Restores e (e.callFunction name arguments)) ∧
      (∀ tokens, Restores e (e.resolveGroup tokens)) ∧
      (∀ tokens, Restores e (e.resolveConditional tokens)) ∧
      (e.depth < e.limit → ∀ tokens, ∃ outcome after more,
        e.reduce tokens = some (outcome, after) ∧
          after.notes = e.notes ++ [e.depth + 1] ++ more ++ [e.depth + 1])) ∧
    ∀ earlier : List (List Token), ∃ results e,
      (fresh scope limit).evaluateAll earlier = some (results, e) ∧
        e.depth = 0 ∧ (∀ n ∈ e.notes, n ≤ limit) ∧
        ∀ tokens, ∃ result after afresh,
          e.evaluate tokens = some (result, after) ∧
            (fresh ⟨scope.functions, e.scope.store⟩ limit).evaluate tokens = some (result, afresh) ∧
            after.scope.store = afresh.scope.store ∧
            after.diagnostics = e.diagnostics ++ afresh.diagnostics ∧
            evaluateTokens limit ⟨scope.functions, e.scope.store⟩ tokens =
              ⟨(result, afresh.scope.store), afresh.diagnostics⟩ := by
  constructor
  · intro e
    exact ⟨fun tokens => (follows_reduce _ rfl tokens).restores,
      fun place tokens => (follows_settleAt place tokens).restores,
      fun name arguments => (follows_callFunction follows_settleAt name arguments).restores,
      fun tokens => (follows_resolveGroup follows_settleAt tokens).restores,
      fun tokens => (follows_resolveConditional follows_settleAt tokens).restores,
      fun hdepth tokens => notes_reduce e hdepth tokens⟩
  · intro earlier
    obtain ⟨results, ⟨⟨_, store⟩, limit', diagnostics, _, notes⟩, hall, rfl, rfl, rfl, hnotes⟩ :=
      evaluateAll_eq scope limit earlier [] [] nofun
    refine ⟨results, _, hall, rfl, hnotes, fun tokens => ?_⟩
    obtain ⟨more, -, hrun⟩ :=
      evaluate_eq ⟨scope.functions, store⟩ limit' tokens diagnostics notes
    obtain ⟨more', -, hfresh⟩ := evaluate_eq ⟨scope.functions, store⟩ limit' tokens [] []
    exact ⟨_, _, _, hrun, hfresh, rfl, rfl, rfl⟩

end Evaluator
end Reckon
