import Reckon.Formula
import Reckon.Proofs.ReductionRuns

/-!
Where a failure of a call ends an evaluation.

A call fails its own sequence. Nested sequences turn that into null, so only a call that comes to stand
in the root can end the evaluation. Reduction brings one there in one way: a branch of a single token
takes the place of its conditional as it is, while longer branches, groups and arguments are reduced
where they stand and give no calls away.
-/

namespace Reckon

def Token.call? : Token → Option (String × List Token)
  | .call s arguments => some (s, arguments)
  | _ => none

/-- The call that is all there is of a branch. -/
def onlyCall : List Token → List (String × List Token)
  | [t] => t.call?.toList
  | _ => []

mutual

/-- The calls in a token that are all there is of a branch, by themselves or in groups and branches.
Those in arguments are left out. -/
def Token.soleCalls : Token → List (String × List Token)
  | .group inner => soleCalls inner
  | .conditional whenTrue whenFalse =>
    onlyCall whenTrue ++ onlyCall whenFalse ++ soleCalls whenTrue ++ soleCalls whenFalse
  | _ => []

def soleCalls : List Token → List (String × List Token)
  | [] => []
  | t :: rest => t.soleCalls ++ soleCalls rest

end

/-- Whether a call stands in a sequence, or is all there is of a branch in it. -/
def Exposed (tokens : List Token) (c : String × List Token) : Prop :=
  .call c.1 c.2 ∈ tokens ∨ c ∈ soleCalls tokens

section
variable {c : String × List Token}

theorem mem_soleCalls {tokens : List Token} :
    c ∈ soleCalls tokens ↔ ∃ t ∈ tokens, c ∈ t.soleCalls := by
  induction tokens with
  | nil => simp [soleCalls]
  | cons t rest ih => simp [soleCalls, ih]

theorem soleCalls_of_isValue {t : Token} (h : t.isValue) : t.soleCalls = [] := by
  obtain rfl | ⟨_, rfl⟩ | ⟨_, rfl⟩ := value_cases h <;> simp only [Token.soleCalls]

theorem call?_of_isValue {t : Token} (h : t.isValue) : t.call? = none := by
  obtain rfl | ⟨_, rfl⟩ | ⟨_, rfl⟩ := value_cases h <;> rfl

theorem mem_onlyCall {tokens : List Token} (h : c ∈ onlyCall tokens) : tokens = [.call c.1 c.2] := by
  unfold onlyCall at h
  split at h
  · rename_i t
    cases t with
    | call s arguments =>
      obtain rfl := List.mem_singleton.mp h
      rfl
    | undefined | number _ | text _ | operator _ | name _ | group _ | conditional _ _ => cases h
  · cases h

theorem onlyCall_of_needsReduction {tokens : List Token} (h : needsReduction tokens = false) :
    onlyCall tokens = [] := by
  refine List.eq_nil_iff_forall_not_mem.mpr fun c hc => ?_
  rw [mem_onlyCall hc] at h
  exact Bool.noConfusion h

end

/-- A sequence shows no call that another does not. -/
structure ShowsNoMore (after tokens : List Token) : Prop where
  sole : soleCalls after ⊆ soleCalls tokens
  exposed : ∀ c, Exposed after c → Exposed tokens c

theorem ShowsNoMore.refl (tokens : List Token) : ShowsNoMore tokens tokens :=
  ⟨fun _ h => h, fun _ h => h⟩

theorem ShowsNoMore.trans {first second third : List Token} (h : ShowsNoMore third second)
    (h' : ShowsNoMore second first) : ShowsNoMore third first :=
  ⟨fun _ hc => h'.sole (h.sole hc), fun c hc => h'.exposed c (h.exposed c hc)⟩

theorem ShowsNoMore.of_forall {after tokens : List Token}
    (h : ∀ t ∈ after, t ∈ tokens ∨
      t.soleCalls ⊆ soleCalls tokens ∧ ∀ c, t.call? = some c → c ∈ soleCalls tokens) :
    ShowsNoMore after tokens := by
  have hsole : soleCalls after ⊆ soleCalls tokens := by
    intro c hc
    obtain ⟨t, ht, hc⟩ := mem_soleCalls.mp hc
    rcases h t ht with hm | ⟨hsub, -⟩
    · exact mem_soleCalls.mpr ⟨t, hm, hc⟩
    · exact hsub hc
  refine ⟨hsole, fun c hc => ?_⟩
  rcases hc with hc | hc
  · rcases h _ hc with hm | ⟨-, hcall⟩
    · exact .inl hm
    · exact .inr (hcall c rfl)
  · exact .inr (hsole hc)

/-- What settles nested sequences comes to an end and brings no new calls out of them. -/
structure Settle.Contains (settle : Settle) : Prop where
  sole : ∀ place inner, soleCalls (settle place inner).result ⊆ soleCalls inner
  done : ∀ place inner, needsReduction (settle place inner).result = false

section Step

variable {scope : Scope} {settle : Settle} (hs : settle.Contains)

include hs

theorem Settle.Contains.call?_of_getLast {place : Place} {inner : List Token} {t : Token}
    (h : (settle place inner).result.getLast? = some t) : t.call? = none := by
  have hdone := hs.done place inner
  match hr : (settle place inner).result with
  | [] => simp [hr] at h
  | [u] =>
    rw [hr] at h hdone
    obtain rfl : u = t := by simpa using h
    cases u with
    | call _ _ => exact Bool.noConfusion hdone
    | undefined | number _ | text _ | operator _ | name _ | group _ | conditional _ _ => rfl
  | u :: v :: rest =>
    rw [hr, needsReduction_of_long (by simp)] at hdone
    exact Bool.noConfusion hdone

theorem Settle.Contains.soleCalls_resolveBranch (branch : Branch) (tokens : List Token) :
    onlyCall (resolveBranch settle branch tokens).result.1 ⊆ onlyCall tokens ∧
      soleCalls (resolveBranch settle branch tokens).result.1 ⊆ soleCalls tokens := by
  have hnull : onlyCall [.undefined] = [] ∧ soleCalls [.undefined] = [] := by
    simp [onlyCall, Token.call?, soleCalls, Token.soleCalls]
  rcases tokens with _ | ⟨t, _ | ⟨u, rest⟩⟩
  · rw [result_resolveBranch_nil]
    simp [hnull]
  · rw [resolveBranch_of_single rfl]
    exact ⟨fun _ h => h, fun _ h => h⟩
  · rw [result_resolveBranch_of_long (by simp)]
    dsimp only
    split
    · simp [hnull]
    · rw [onlyCall_of_needsReduction (hs.done .branch _)]
      exact ⟨List.nil_subset _, hs.sole .branch _⟩

theorem Settle.Contains.rewrites {tokens after : List Token}
    (h : Rewrites scope settle tokens after) : ShowsNoMore after tokens := by
  have hreplaced {before rest : List Token} {t u : Token}
      (hu : u.soleCalls ⊆ t.soleCalls) (hcall : u.call? = none) :
      ShowsNoMore (before ++ u :: rest) (before ++ t :: rest) := by
    refine .of_forall fun v hv => ?_
    rcases List.mem_append.mp hv with hv | hv
    · exact .inl (List.mem_append_left _ hv)
    · rcases List.mem_cons.mp hv with rfl | hv
      · refine .inr ⟨fun c hc => mem_soleCalls.mpr ⟨t, by simp, hu hc⟩, fun c he => ?_⟩
        rw [hcall] at he
        cases he
      · exact .inl (List.mem_append_right _ (List.mem_cons_of_mem _ hv))
  have hvalue {before rest : List Token} {t u : Token} (hu : u.isValue) :
      ShowsNoMore (before ++ u :: rest) (before ++ t :: rest) := by
    refine hreplaced ?_ (call?_of_isValue hu)
    rw [soleCalls_of_isValue hu]
    exact List.nil_subset _
  cases h with
  | name before s after => exact hvalue (Token.isValue_of_weight (weight_lookup scope.store s))
  | call before h => exact hvalue (Token.isValue_of_weight (weight_performCall h))
  | @group before inner after t h ht =>
    refine hreplaced ?_ (hs.call?_of_getLast h)
    intro c hc
    rw [Token.soleCalls]
    exact hs.sole .parentheses inner (mem_soleCalls.mpr ⟨t, List.mem_of_getLast? h, hc⟩)
  | groupGone before h =>
    refine .of_forall fun v hv => .inl ?_
    rcases List.mem_append.mp hv with hv | hv
    · exact List.mem_append_left _ hv
    · exact List.mem_append_right _ (List.mem_cons_of_mem _ hv)
  | @conditional before whenTrue whenFalse after h =>
    refine hreplaced ?_ rfl
    have htrue := hs.soleCalls_resolveBranch .whenTrue whenTrue
    have hfalse := hs.soleCalls_resolveBranch .whenFalse whenFalse
    intro c hc
    simp only [Token.soleCalls, List.mem_append] at hc ⊢
    exact hc.imp (Or.imp (Or.imp (htrue.1 ·) (hfalse.1 ·)) (htrue.2 ·)) (hfalse.2 ·)

theorem Settle.Contains.stepWith {tokens after : List Token}
    (h : (stepWith scope settle tokens).run.result = .ok (.progressed after)) :
    ShowsNoMore after tokens := by
  rcases stepWith_cases h with ⟨after', he, hr⟩ | ⟨hsettled, ha⟩
  · obtain rfl := Step.progressed.inj he
    clear h he
    induction hr with
    | single hr => exact hs.rewrites hr
    | tail _ hr ih => exact (hs.rewrites hr).trans ih
  · refine .of_forall fun t ht => ?_
    rcases mem_of_applyFirst ha.symm ht with hv | hm | ⟨_, whenTrue, whenFalse, _, hsplit, hhead⟩
    · rw [soleCalls_of_isValue hv, call?_of_isValue hv]
      exact .inr ⟨List.nil_subset _, nofun⟩
    · exact .inl hm
    · -- The branches have one token each here, so a call that is chosen is all there is of its branch.
      obtain ⟨htrue, hfalse⟩ := hsettled.single _ _ _ _ hsplit
      have hshown {c : String × List Token}
          (hc : c ∈ (Token.conditional whenTrue whenFalse).soleCalls) : c ∈ soleCalls tokens := by
        rw [(splitFirst_eq_some hsplit).1]
        exact mem_soleCalls.mpr ⟨_, List.mem_append_right _ (List.mem_cons_self ..), hc⟩
      have honly {branch : List Token} (hlength : branch.length = 1)
          (hhead : branch.head? = some t) : branch = [t] := by
        obtain ⟨u, rfl⟩ := List.length_eq_one_iff.mp hlength
        rw [Option.some.inj hhead]
      refine .inr ⟨fun c hc => hshown ?_, fun c he => hshown ?_⟩
      · simp only [Token.soleCalls, List.mem_append]
        rcases hhead with hhead | hhead
        · exact .inl (.inr (mem_soleCalls.mpr ⟨t, List.mem_of_mem_head? hhead, hc⟩))
        · exact .inr (mem_soleCalls.mpr ⟨t, List.mem_of_mem_head? hhead, hc⟩)
      · simp only [Token.soleCalls, List.mem_append]
        rcases hhead with hhead | hhead
        · rw [honly htrue hhead]
          exact .inl (.inl (.inl (by simp [onlyCall, he])))
        · rw [honly hfalse hhead]
          exact .inl (.inl (.inr (by simp [onlyCall, he])))

end Step

/-! The levels of nesting. -/

theorem showsNoMore_settleWith {step : List Token → Attempt Step}
    (hstep : ∀ tokens after, (step tokens).run.result = .ok (.progressed after) →
      ShowsNoMore after tokens) (place : Place) (fuel : Nat) (tokens : List Token) :
    soleCalls (settleWith step place fuel tokens).result ⊆ soleCalls tokens := by
  have hnull : soleCalls [.undefined] = [] := by simp [soleCalls, Token.soleCalls]
  induction fuel generalizing tokens with
  | zero => exact fun _ h => h
  | succ fuel ih =>
    simp only [settleWith]
    split
    · simp only [Reported.result_bind]
      split
      · rename_i after ha
        exact fun c hc => (hstep tokens after ha).sole (ih after hc)
      · simp [hnull]
      · simp [hnull]
    · exact fun _ h => h

theorem showsNoMore_of_reduce {scope : Scope} {limit levels : Nat} {tokens after : List Token}
    (h : (reduce scope limit levels tokens).run.result = .ok (.progressed after)) :
    ShowsNoMore after tokens := by
  induction levels generalizing tokens after with
  | zero => simp [reduce] at h
  | succ levels ih =>
    refine Settle.Contains.stepWith ⟨?_, ?_⟩ h
    · exact fun place inner => showsNoMore_settleWith (fun _ _ => ih) place _ inner
    · exact fun place inner =>
        needsReduction_settleWith (fun _ _ => weight_lt_of_reduce) place (Nat.le_refl _)

/-! The root. -/

theorem showsNoMore_of_stepsTo {scope : Scope} {limit levels : Nat} {tokens after : List Token}
    (h : StepsTo (reduce scope limit levels) tokens after) : ShowsNoMore after tokens := by
  induction h with
  | refl => exact .refl tokens
  | tail _ hstep ih => exact (showsNoMore_of_reduce hstep.2).trans ih

theorem splitFirst_resolveNames (store : Table Value) (tokens : List Token) :
    (splitFirst isCall (resolveNames store tokens).result).map (·.2.1) =
      (splitFirst isCall tokens).map (·.2.1) := by
  have hcons (t : Token) (rest : List Token) : (splitFirst isCall (t :: rest)).map (·.2.1) =
      if isCall t then some t else (splitFirst isCall rest).map (·.2.1) := by
    rw [splitFirst]
    split
    · rfl
    · rw [Option.map_map]
      rfl
  induction tokens with
  | nil => rfl
  | cons t rest ih =>
    cases t with
    | name s =>
      have hvalue : isCall (lookup store s).result = false := by
        have hv := Token.isValue_of_weight (weight_lookup store s)
        revert hv
        cases (lookup store s).result <;> simp [isCall, Token.isValue]
      simp only [resolveNames, Reported.result_bind, Reported.result_pure, hcons, hvalue, ih]
      rfl
    | undefined | number _ | text _ | operator _ | call _ _ | group _ | conditional _ _ =>
      simp only [resolveNames, Reported.result_bind, Reported.result_pure, hcons, ih]

/-- A step fails if the first call of its sequence does, and not otherwise. -/
theorem stepWith_error_iff {scope : Scope} {settle : Settle} {tokens : List Token}
    {failure : Failure} :
    (stepWith scope settle tokens).run.result = .error failure ↔
      ∃ before s arguments after,
        splitFirst isCall tokens = some (before, .call s arguments, after) ∧
          (performCall scope settle s arguments).run.result = .error failure := by
  have hfirst := splitFirst_resolveNames scope.store tokens
  constructor
  · intro h
    obtain ⟨before, s, arguments, after, hs, hp⟩ :=
      performCall_of_rewriteTokens (rewriteTokens_of_stepWith h)
    rw [hs, Option.map_some] at hfirst
    obtain ⟨⟨before, t, after⟩, hsplit, rfl⟩ := Option.map_eq_some_iff.mp hfirst.symm
    exact ⟨before, s, arguments, after, hsplit, hp⟩
  · rintro ⟨before, s, arguments, after, hsplit, hp⟩
    rw [hsplit, Option.map_some] at hfirst
    obtain ⟨⟨before, t, after⟩, hnamed, rfl⟩ := Option.map_eq_some_iff.mp hfirst
    have hcall : (resolveCall scope settle (resolveNames scope.store tokens).result).run.result =
        .error failure := by
      simp only [resolveCall, hnamed, ExceptT.run_bind, Reported.result_bind, hp]
      rfl
    have hrewrite : (rewriteTokens scope settle tokens).run.result = .error failure := by
      simp only [rewriteTokens, ExceptT.run_bind, ExceptT.run_liftM, bind_map_left,
        Reported.result_bind, hcall]
      rfl
    simp only [stepWith, ExceptT.run_bind, Reported.result_bind, hrewrite]
    rfl

/-- Whether a failure ended an evaluation. -/
def Evaluation.Aborted (e : Evaluation) : Prop :=
  ∃ d ∈ e.diagnostics, ∃ failure, d.cause = .aborted failure

namespace Formula

/-- What is evaluated for the result. -/
def body (f : Formula) : List Token := (splitTarget f.tokens).2

/-- What reduction makes of the root. -/
def driven (f : Formula) (scope : Scope) : Except Failure (List Token) :=
  (drive (reduce scope f.limit f.limit) (sequenceWeight f.body) f.body).run.result

/-- A call that the root comes to perform, and that fails. -/
def Fails (f : Formula) (scope : Scope) (s : String) (arguments : List Token) (failure : Failure) :
    Prop :=
  ∃ state before after, StepsTo (reduce scope f.limit f.limit) f.body state ∧
    splitFirst isCall state = some (before, .call s arguments, after) ∧
    (performCall scope (settleAt scope f.limit (f.limit - 1)) s arguments).run.result =
      .error failure

/-- Such a call stands in the root from the beginning, or is all there is of a branch. -/
theorem exposed_of_fails {f : Formula} {scope : Scope} {s : String} {arguments : List Token}
    {failure : Failure} (h : f.Fails scope s arguments failure) : Exposed f.body (s, arguments) := by
  obtain ⟨state, before, after, hsteps, hsplit, -⟩ := h
  refine (showsNoMore_of_stepsTo hsteps).exposed _ (.inl ?_)
  rw [(splitFirst_eq_some hsplit).1]
  exact List.mem_append_right before (List.mem_cons_self ..)

theorem driven_error_iff {f : Formula} {scope : Scope} (hlimit : 0 < f.limit) {failure : Failure} :
    f.driven scope = .error failure ↔ ∃ s arguments, f.Fails scope s arguments failure := by
  have hreduce (state : List Token) : reduce scope f.limit f.limit state =
      stepWith scope (settleAt scope f.limit (f.limit - 1)) state := by
    obtain ⟨levels, hlevels⟩ := Nat.exists_eq_add_one.mpr hlimit
    rw [hlevels]
    rfl
  constructor
  · intro h
    obtain ⟨state, hsteps, he⟩ := stepsTo_of_drive_error h
    rw [hreduce] at he
    obtain ⟨before, s, arguments, after, hsplit, hcall⟩ := stepWith_error_iff.mp he
    exact ⟨s, arguments, state, before, after, hsteps, hsplit, hcall⟩
  · rintro ⟨s, arguments, state, before, after, hsteps, hsplit, hcall⟩
    refine drive_error_of_stepsTo hsteps ?_ ?_ (Nat.le_refl _)
    · rw [(splitFirst_eq_some hsplit).1]
      cases before <;> cases after <;> simp [needsReduction]
    · rw [hreduce]
      exact stepWith_error_iff.mpr ⟨before, s, arguments, after, hsplit, hcall⟩

theorem keeps_not_aborted (scope : Scope) (limit : Nat) (failure : Failure) :
    RunKeeps scope limit (fun _ _ => True) fun cause => cause ≠ .aborted failure where
  value _ _ := trivial
  conditional _ _ := trivial
  slot _ _ _ := trivial
  ordinary cause h he := by
    rw [he] at h
    exact Bool.noConfusion h
  unexpected _ _ _ := nofun
  failed _ _ _ := nofun

theorem aborted_iff {f : Formula} {scope : Scope} {failure : Failure} :
    (∃ d ∈ (f.evaluate scope).1.diagnostics, d.cause = .aborted failure) ↔
      f.driven scope = .error failure := by
  constructor
  · rintro ⟨d, hd, hcause⟩
    refine Classical.byContradiction fun hdriven => ?_
    have hevery : AllEvery (fun _ _ => True) false f.body :=
      (allEvery_tokenAt false _).mono fun _ _ _ => trivial
    have htwin := (keeps_not_aborted scope f.limit failure).twin_evaluateTokens (.refl _ scope)
      hevery fun failure' he hsame => hdriven (Cause.aborted.inj hsame ▸ he)
    exact htwin.causes d hd hcause
  · intro hdriven
    unfold driven body at hdriven
    refine ⟨⟨.aborted failure, none⟩, ?_, rfl⟩
    simp only [evaluate, evaluateTokens, Reported.diagnostics_bind, hdriven, List.mem_append]
    exact .inr (.inl (List.mem_append_left _ (List.mem_singleton_self _)))

theorem value_evaluate {f : Formula} {scope : Scope} {reduced : List Token}
    (h : f.driven scope = .ok reduced) :
    (f.evaluate scope).1.value =
      ((resultOf (splitTarget f.tokens).1.isSome reduced).result.getD .undefined).toValue := by
  unfold driven body at h
  unfold evaluate evaluateTokens
  cases hsplit : splitTarget f.tokens with
  | mk target body =>
    rw [hsplit] at h
    simp only [Reported.result_bind, h]
    cases target with
    | none => rfl
    | some name =>
      dsimp only
      split <;> rfl

/-- If no call of the root itself fails, the evaluation is aborted just if one fails that is all there
is of a branch. Otherwise the root is reduced to its end and gives the value. A nested sequence that
fails leaves null and a report of its failure. -/
theorem failures_stay_local (f : Formula) (scope : Scope) (hlimit : 0 < f.limit)
    (hroot : ∀ s arguments failure, f.Fails scope s arguments failure →
      .call s arguments ∉ f.body) :
    (¬(f.evaluate scope).1.Aborted ↔ ∀ s arguments failure, f.Fails scope s arguments failure →
      (s, arguments) ∉ soleCalls f.body) ∧
    (¬(f.evaluate scope).1.Aborted → ∃ reduced, f.driven scope = .ok reduced ∧
      needsReduction reduced = false ∧ (f.evaluate scope).1.value =
        ((resultOf (splitTarget f.tokens).1.isSome reduced).result.getD .undefined).toValue) ∧
    ∀ levels place inner failure,
      (drive (reduce scope f.limit levels) (sequenceWeight inner) inner).run.result =
        .error failure →
      (settleAt scope f.limit levels place inner).result = [.undefined] ∧
        ⟨.failedIn place failure, none⟩ ∈ (settleAt scope f.limit levels place inner).diagnostics := by
  refine ⟨⟨?_, ?_⟩, ?_, ?_⟩
  · intro h s arguments failure hfails
    have hdriven := (driven_error_iff hlimit).mpr ⟨s, arguments, hfails⟩
    obtain ⟨d, hd, hcause⟩ := aborted_iff.mpr hdriven
    exact absurd ⟨d, hd, failure, hcause⟩ h
  · rintro h ⟨d, hd, failure, hcause⟩
    obtain ⟨s, arguments, hfails⟩ := (driven_error_iff hlimit).mp (aborted_iff.mp ⟨d, hd, hcause⟩)
    exact (exposed_of_fails hfails).elim (hroot s arguments failure hfails)
      (h s arguments failure hfails)
  · intro h
    cases hr : f.driven scope with
    | error failure =>
      obtain ⟨d, hd, hcause⟩ := aborted_iff.mpr hr
      exact absurd ⟨d, hd, failure, hcause⟩ h
    | ok reduced =>
      exact ⟨reduced, rfl,
        needsReduction_drive (fun _ _ => weight_lt_of_reduce) (Nat.le_refl _) hr, value_evaluate hr⟩
  · intro levels place inner failure he
    refine ⟨?_, failedIn_of_drive_error place he⟩
    rw [settleAt, result_settleWith, he]

/-- A function that always fails. -/
def explodingScope : Scope :=
  ⟨.ofList [("boom", fun _ => .error (.functionFailed "boom" "exploded"))], .empty⟩

/-- A call in a group fails there alone. -/
theorem failures_stay_local_group :
    let f := read 128 "(boom()) + 5"
    f.body = [.group [.call "boom" []], .operator .add, .number 5] ∧
      ¬(f.evaluate explodingScope).1.Aborted := by
  intro f
  have hbody : f.body = [.group [.call "boom" []], .operator .add, .number 5] := by decide +kernel
  have hlocal := failures_stay_local f explodingScope (by decide) (by simp [hbody])
  refine ⟨hbody, hlocal.1.mpr fun s arguments failure _ => ?_⟩
  rw [hbody]
  simp [soleCalls, Token.soleCalls]

/-- A call that is all there is of a branch comes to stand in the root, and aborts the evaluation. -/
theorem failure_of_only_call :
    let f := read 128 "1 ? boom() : 2 + 5"
    f.body = [.number 1, .conditional [.call "boom" []] [.number 2], .operator .add, .number 5] ∧
      f.body.all (fun t => !isCall t) ∧
      ⟨.aborted (.functionFailed "boom" "exploded"), none⟩ ∈
        (f.evaluate explodingScope).1.diagnostics ∧
      (f.evaluate explodingScope).1.value = .null := by
  decide +kernel

end Formula

end Reckon
