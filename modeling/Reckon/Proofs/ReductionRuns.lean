import Reckon.Proofs.EvaluationOutcome
import Reckon.Proofs.ReductionLoops
import Reckon.Proofs.ReductionTokens

/-!
What holds of the tokens of a run of reduction, of the causes it reports, and of two runs at once.

Reduction moves tokens, replaces them by values and takes arguments apart at their separators. A
property of single tokens that bears this holds of every sequence of a run if it does of the first one.
Under such a property the causes that a run may report are known, and two scopes that differ only in
what no call of these sequences can tell lead through one and the same run. All of it goes by one
induction over the recursion of `reduce` and the loops, with runs of two scopes side by side.
-/

namespace Reckon

/-- Two runs that are one, whose result has a property and whose causes all have another. -/
structure Reported.Twin {α : Type} (R : α → Prop) (Q : Cause → Prop) (x y : Reported α) : Prop where
  eq : x = y
  result : R x.result
  causes : x.AllCauses Q

/-- Two attempts that are one; the property is that of what they give if they do not fail. -/
abbrev Attempt.Twin {α : Type} (R : α → Prop) (Q : Cause → Prop) (x y : Attempt α) : Prop :=
  Reported.Twin (fun outcome => ∀ a, outcome = .ok a → R a) Q x.run y.run

section
variable {α β : Type} {R : α → Prop} {S : β → Prop} {Q : Cause → Prop}

theorem Reported.Twin.refl {x : Reported α} (h : R x.result) (hc : x.AllCauses Q) :
    Reported.Twin R Q x x :=
  ⟨rfl, h, hc⟩

theorem Reported.Twin.pure {a : α} (h : R a) : Reported.Twin R Q (pure a) (pure a) :=
  .refl h (allCauses_pure a)

theorem Reported.Twin.bind {x y : Reported α} {f g : α → Reported β} (h : Reported.Twin R Q x y)
    (hf : R x.result → Reported.Twin S Q (f x.result) (g x.result)) :
    Reported.Twin S Q (x >>= f) (y >>= g) := by
  obtain ⟨rfl, hr, hc⟩ := h
  have hnext := hf hr
  exact ⟨Reported.bind_congr hnext.eq, hnext.result, (allCauses_bind x f).mpr ⟨hc, hnext.causes⟩⟩

theorem Attempt.Twin.pure {a : α} (h : R a) : Attempt.Twin R Q (pure a) (pure a) :=
  Reported.Twin.pure fun _ he => Except.ok.inj he ▸ h

theorem Attempt.Twin.throw (failure : Failure) :
    Attempt.Twin R Q (throw failure) (throw failure) :=
  Reported.Twin.pure nofun

theorem Attempt.Twin.lift {x y : Reported α} (h : Reported.Twin R Q x y) :
    Attempt.Twin R Q (liftM x) (liftM y) := by
  obtain ⟨rfl, hr, hc⟩ := h
  refine .refl ?_ ?_
  · rintro a ha
    exact Except.ok.inj ha ▸ hr
  · rw [ExceptT.run_liftM, Reported.allCauses_map]
    exact hc

theorem Attempt.Twin.bind {x y : Attempt α} {f g : α → Attempt β} (h : Attempt.Twin R Q x y)
    (hf : ∀ a, x.run.result = .ok a → R a → Attempt.Twin S Q (f a) (g a)) :
    Attempt.Twin S Q (x >>= f) (y >>= g) := by
  unfold Attempt.Twin
  simp only [ExceptT.run_bind]
  refine Reported.Twin.bind h fun hr => ?_
  cases hx : x.run.result with
  | ok a => exact hf a hx (hr a hx)
  | error failure => exact Attempt.Twin.throw failure

end

/-! What a run keeps. -/

/-- What a run keeps of tokens, in arguments or not, and of the causes it reports. -/
structure RunKeeps (scope : Scope) (limit : Nat) (p : Bool → Token → Prop) (Q : Cause → Prop) :
    Prop where
  value : ∀ t : Token, t.isValue → p false t
  conditional : ∀ whenTrue whenFalse, p false (.conditional whenTrue whenFalse)
  slot : ∀ t, p true t → t ≠ .operator .comma → p false t
  ordinary : ∀ cause : Cause, cause.isOrdinary → Q cause
  unexpected : ∀ op, p false (.operator op) → op = .set ∨ op = .comma → Q (.unexpectedOperator op)
  failed : ∀ place failure, failure.Expected scope limit → Q (.failedIn place failure)

/-- The outcome of a function of a scope, if there is one of that name. -/
def Scope.outcome? (scope : Scope) (s : String) (values : List Value) :
    Option (Except Failure Value) :=
  (scope.functions.get? s).map (· values)

/-- Two scopes that no call with a property can tell apart. -/
structure Scope.Alike (calls : String → List Token → Prop) (scope scope' : Scope) : Prop where
  store : scope.store = scope'.store
  names : scope.functions.names = scope'.functions.names
  outcome : ∀ s arguments, calls s arguments → ∀ values : List Value,
    values.length = (splitArguments arguments).length →
      scope.outcome? s values = scope'.outcome? s values

theorem Scope.Alike.refl (calls : String → List Token → Prop) (scope : Scope) :
    Scope.Alike calls scope scope :=
  ⟨rfl, rfl, fun _ _ _ _ _ => rfl⟩

section Runs

variable {scope scope' : Scope} {limit : Nat} {p : Bool → Token → Prop} {Q : Cause → Prop}
  {settle settle' : Settle}

section Tokens

variable (hk : RunKeeps scope limit p Q)

include hk

theorem RunKeeps.every_value {t : Token} (h : t.isValue) : t.Every p false := by
  have hp := hk.value t h
  obtain rfl | ⟨_, rfl⟩ | ⟨_, rfl⟩ := value_cases h <;> simpa only [Token.Every] using hp

theorem RunKeeps.every_slot {t : Token} (h : t.Every p true) (hc : t ≠ .operator .comma) :
    t.Every p false := by
  have hp := hk.slot t h.self hc
  cases t with
  | call _ _ | group _ | conditional _ _ =>
    simp only [Token.Every] at h ⊢
    exact ⟨hp, h.2⟩
  | undefined | number _ | text _ | operator _ | name _ => simpa only [Token.Every] using hp

theorem RunKeeps.allEvery_slot {tokens slot : List Token} (h : AllEvery p true tokens)
    (hslot : slot ∈ splitArguments tokens) : AllEvery p false slot := by
  refine allEvery_iff.mpr fun t ht => ?_
  obtain ⟨hm, hc⟩ := mem_splitArguments hslot ht
  exact hk.every_slot (allEvery_iff.mp h t hm) hc

theorem RunKeeps.allEvery_applyFirst {tokens after : List Token} (h : AllEvery p false tokens)
    (ha : (applyFirst tokens).result = .progressed after) : AllEvery p false after := by
  refine allEvery_iff.mpr fun t ht => ?_
  rcases mem_of_applyFirst ha ht with hv | hm | ⟨before, whenTrue, whenFalse, more, hsplit, hhead⟩
  · exact hk.every_value hv
  · exact allEvery_iff.mp h t hm
  · obtain ⟨rfl, -, -⟩ := splitFirst_eq_some hsplit
    rw [allEvery_append, AllEvery, Token.Every] at h
    rcases hhead with hhead | hhead
    · exact allEvery_iff.mp h.2.1.2.1 t (List.mem_of_mem_head? hhead)
    · exact allEvery_iff.mp h.2.1.2.2 t (List.mem_of_mem_head? hhead)

end Tokens

/-! The causes of a single operator, of names and of operands side by side. -/

theorem allCauses_mergeAdjacent {first second : Token} (hf : first.isValue)
    (hs : second.isValue) : (mergeAdjacent first second).AllCauses Q := by
  obtain rfl | ⟨_, rfl⟩ | ⟨_, rfl⟩ := value_cases hf <;>
    obtain rfl | ⟨_, rfl⟩ | ⟨_, rfl⟩ := value_cases hs <;>
    simp [mergeAdjacent]

section Causes

variable (hk : RunKeeps scope limit p Q)

include hk

theorem RunKeeps.twin_lookup (store : Table Value) (s : String) :
    Reported.Twin (Token.isValue ·) Q (lookup store s) (lookup store s) := by
  refine .refl (Token.isValue_of_weight (weight_lookup store s)) ?_
  unfold lookup
  split
  · simp
  · simp
  · split
    · simp
    · simpa using hk.ordinary (.unknownVariable s _) rfl

theorem RunKeeps.twin_resolveNames (store : Table Value) {tokens : List Token}
    (h : AllEvery p false tokens) :
    Reported.Twin (AllEvery p false) Q (resolveNames store tokens) (resolveNames store tokens) := by
  induction tokens with
  | nil => exact .pure h
  | cons t rest ih =>
    rw [AllEvery] at h
    have hrest := ih h.2
    have hkept (u : Token) (hu : u.Every p false) (us : List Token) (hus : AllEvery p false us) :
        AllEvery p false (u :: us) := by
      rw [AllEvery]
      exact ⟨hu, hus⟩
    cases t with
    | name s =>
      refine (hk.twin_lookup store s).bind fun hv => hrest.bind fun hr => .pure ?_
      exact hkept _ (hk.every_value hv) _ hr
    | undefined | number _ | text _ | operator _ | call _ _ | group _ | conditional _ _ =>
      exact hrest.bind fun hr => .pure (hkept _ h.1 _ hr)

/-- Operators between operands report nothing unexpected if they are binary. -/
theorem RunKeeps.allCauses_applyBinary {op : Operator} (hop : ¬op.isLogicalNot) (hset : op ≠ .set)
    (hcomma : op ≠ .comma) (lhs rhs : Token) : (applyBinary op lhs rhs).AllCauses Q := by
  have hfault {operation : Quotient} {x : Float} {cause : Cause}
      (h : fault? operation x = some cause) : Q cause := by
    unfold fault? at h
    split at h
    · exact Option.some.inj h ▸ hk.ordinary _ rfl
    · split at h
      · exact Option.some.inj h ▸ hk.ordinary _ rfl
      · split at h
        · exact Option.some.inj h ▸ hk.ordinary _ rfl
        · simp at h
  cases op with
  | not | notNot => exact absurd rfl hop
  | set => exact absurd rfl hset
  | comma => exact absurd rfl hcomma
  | div =>
    simp only [applyBinary, divide]
    split
    · simpa using hk.ordinary (.zeroDivisor _ _) rfl
    · split
      · simp
      · split
        · rename_i hf
          simpa using hfault hf
        · split
          · simpa using hk.ordinary (.inexact _ _) rfl
          · simp
  | mod =>
    simp only [applyBinary, modulo]
    split
    · simpa using hk.ordinary (.zeroDivisor _ _) rfl
    · split
      · rename_i hf
        simpa using hfault hf
      · simp
  | add =>
    simp only [applyBinary]
    split <;> simp
  | eq | ne | lt | le | gt | ge =>
    simp only [applyBinary, Operator.textCounterpart?]
    split <;> simp
  | or | and | sub | cat | mul | pow | textEq | textNe | textLt | textLe | textGt | textGe =>
    simp [applyBinary]

theorem RunKeeps.allCauses_applyOperator {op : Operator} (hp : p false (.operator op)) (lhs : Token)
    (rest : List Token) : (applyOperator lhs op rest).AllCauses Q := by
  unfold applyOperator
  split
  · simpa using hk.ordinary (.missingRight op) rfl
  · split
    · split
      · simp
      · simpa using hk.ordinary (.nothingToNegate .not) rfl
    · split
      · simp
      · simpa using hk.ordinary (.nothingToNegate .notNot) rfl
    · simpa using hk.unexpected .set hp (.inl rfl)
    · simpa using hk.unexpected .comma hp (.inr rfl)
    · rename_i hnot hnn hset hcomma
      split
      · simpa using hk.ordinary (.operatorForRight op _) rfl
      · have hop : ¬op.isLogicalNot := by
          cases op <;> simp_all [Operator.isLogicalNot]
        simpa using hk.allCauses_applyBinary hop hset hcomma _ _
      · simp

theorem RunKeeps.allCauses_applyFirst {tokens : List Token} (h : ∀ t ∈ tokens, t.isPlain)
    (hp : AllEvery p false tokens) : (applyFirst tokens).AllCauses Q := by
  unfold applyFirst
  split
  · simp
  · split
    · simpa using hk.ordinary (.signWithoutValue _) rfl
    · split
      · simp
      · simpa using hk.ordinary (.missingLeft _) rfl
  · simpa using hk.ordinary .noCondition rfl
  · simp
  · simp
  · rename_i first op rest _ _
    have hop : p false (.operator op) := (allEvery_iff.mp hp (.operator op) (by simp)).self
    simpa using hk.allCauses_applyOperator hop first rest
  · rename_i first second rest hop hcond hcond' hop'
    have h₁ := h first (by simp)
    have h₂ := h second (by simp)
    simp only [Reported.allCauses_bind, Reported.allCauses_pure, and_true]
    apply allCauses_mergeAdjacent
    · cases first <;> simp_all [Token.isValue, Token.isPlain]
    · cases second <;> simp_all [Token.isValue, Token.isPlain]

end Causes

/-! A step. -/

/-- What two ways to settle nested sequences do alike. -/
abbrev Settle.Twin (p : Bool → Token → Prop) (Q : Cause → Prop) (settle settle' : Settle) : Prop :=
  ∀ place inner, AllEvery p false inner →
    Reported.Twin (AllEvery p false) Q (settle place inner) (settle' place inner)

/-- What holds of a sequence that a part of a step gives, if it gives one. -/
def Rewritten (p : Bool → Token → Prop) (outcome : Option (List Token)) : Prop :=
  ∀ tokens, outcome = some tokens → AllEvery p false tokens

theorem Rewritten.none : Rewritten p none := nofun

theorem Rewritten.some {tokens : List Token} (h : AllEvery p false tokens) :
    Rewritten p (some tokens) :=
  fun _ he => Option.some.inj he ▸ h

theorem Rewritten.getD {outcome : Option (List Token)} (h : Rewritten p outcome)
    {tokens : List Token} (ht : AllEvery p false tokens) : AllEvery p false (outcome.getD tokens) := by
  cases outcome with
  | none => exact ht
  | some after => exact h after rfl

theorem Settle.Twin.argumentValues (hs : Settle.Twin p Q settle settle')
    {arguments : List (List Token)} (h : ∀ argument ∈ arguments, AllEvery p false argument) :
    Reported.Twin (fun values => values.length = arguments.length) Q
      (argumentValues settle arguments) (argumentValues settle' arguments) := by
  induction arguments with
  | nil => exact .pure rfl
  | cons argument rest ih =>
    rw [Reckon.argumentValues, Reckon.argumentValues]
    refine (hs .argument argument (h argument (List.mem_cons_self ..))).bind fun _ => ?_
    refine (ih fun a ha => h a (List.mem_cons_of_mem argument ha)).bind fun hl => .pure ?_
    rw [List.length_cons, List.length_cons, hl]

theorem length_argumentValues (settle : Settle) (arguments : List (List Token)) :
    (argumentValues settle arguments).result.length = arguments.length := by
  have hs : Settle.Twin (fun _ _ => True) (fun _ => True) settle settle := fun _ _ _ =>
    .refl ((allEvery_tokenAt false _).mono fun _ _ _ => trivial) fun _ _ => trivial
  exact (hs.argumentValues fun _ _ => (allEvery_tokenAt false _).mono fun _ _ _ => trivial).result

section Steps

variable (hk : RunKeeps scope limit p Q) (ha : Scope.Alike (p false <| .call · ·) scope scope')
  (hs : Settle.Twin p Q settle settle')

include hk ha hs

theorem RunKeeps.twin_performCall {s : String} {arguments : List Token}
    (hc : (Token.call s arguments).Every p false) :
    Attempt.Twin (Token.isValue ·) Q (performCall scope settle s arguments)
      (performCall scope' settle' s arguments) := by
  have hnull {cause : Cause} (hcause : cause.isOrdinary) :
      Attempt.Twin (Token.isValue ·) Q (do report cause; pure .undefined)
        (do report cause; pure .undefined) :=
    (Attempt.Twin.lift (R := fun _ => True)
      (.refl trivial (by simpa using hk.ordinary cause hcause))).bind fun _ _ _ => .pure rfl
  rw [Token.Every] at hc
  have hsame := ha.outcome s arguments hc.1
  unfold performCall
  split
  · exact hnull rfl
  · unfold Scope.outcome? at hsame
    cases hf : scope.functions.get? s with
    | none =>
      cases hf' : scope'.functions.get? s with
      | none =>
        rw [ha.names]
        exact hnull rfl
      | some function' =>
        have h := hsame (.replicate _ .null) List.length_replicate
        simp [hf, hf'] at h
    | some function =>
      cases hf' : scope'.functions.get? s with
      | none =>
        have h := hsame (.replicate _ .null) List.length_replicate
        simp [hf, hf'] at h
      | some function' =>
        have hvalues := hs.argumentValues fun slot hslot => hk.allEvery_slot hc.2 hslot
        refine (Attempt.Twin.lift hvalues).bind fun values _ hl => ?_
        have he : function values = function' values := by
          simpa [hf, hf'] using hsame values hl
        rw [he]
        split
        · exact .pure (Token.isValue_of_weight (Token.weight_ofValue _))
        · exact .throw _

theorem RunKeeps.twin_resolveCall {tokens : List Token} (h : AllEvery p false tokens) :
    Attempt.Twin (Rewritten p) Q (resolveCall scope settle tokens)
      (resolveCall scope' settle' tokens) := by
  unfold resolveCall
  split
  · rename_i before s arguments after hsplit
    obtain ⟨rfl, -, -⟩ := splitFirst_eq_some hsplit
    rw [allEvery_append, AllEvery] at h
    refine (hk.twin_performCall ha hs h.2.1).bind fun t _ ht => .pure (Rewritten.some ?_)
    rw [allEvery_append, AllEvery]
    exact ⟨h.1, hk.every_value ht, h.2.2⟩
  · exact .pure Rewritten.none

end Steps

section Steps

variable (hk : RunKeeps scope limit p Q) (hs : Settle.Twin p Q settle settle')

include hk hs

theorem RunKeeps.twin_resolveGroup {tokens : List Token} (h : AllEvery p false tokens) :
    Reported.Twin (Rewritten p) Q (resolveGroup settle tokens) (resolveGroup settle' tokens) := by
  unfold resolveGroup
  split
  · rename_i before inner after hsplit
    obtain ⟨rfl, -, -⟩ := splitFirst_eq_some hsplit
    rw [allEvery_append, AllEvery, Token.Every] at h
    have hgone {cause : Cause} (hcause : cause.isOrdinary) :
        Reported.Twin (Rewritten p) Q (do report cause; pure (some (before ++ after)))
          (do report cause; pure (some (before ++ after))) :=
      .refl (Rewritten.some (allEvery_append.mpr ⟨h.1, h.2.2⟩))
        (by simpa using hk.ordinary cause hcause)
    refine (hs .parentheses inner h.2.1.2).bind fun hr => ?_
    split
    · exact hgone rfl
    · rename_i t _ hlast
      refine .pure (Rewritten.some ?_)
      rw [allEvery_append, AllEvery]
      exact ⟨h.1, allEvery_iff.mp hr t (List.mem_of_getLast? hlast), h.2.2⟩
    · exact hgone rfl
  · exact .pure Rewritten.none

theorem RunKeeps.twin_resolveBranch (branch : Branch) {tokens : List Token}
    (h : AllEvery p false tokens) :
    Reported.Twin (AllEvery p false ·.1) Q (resolveBranch settle branch tokens)
      (resolveBranch settle' branch tokens) := by
  have hfilled (reduced : List Token) (hr : AllEvery p false reduced) :
      Reported.Twin (AllEvery p false ·.1) Q
        (if reduced.isEmpty then do
          report (.branchWithoutValue branch)
          return ([.undefined], true)
        else return (reduced, tokens.length > 1))
        (if reduced.isEmpty then do
          report (.branchWithoutValue branch)
          return ([.undefined], true)
        else return (reduced, tokens.length > 1)) := by
    split
    · refine .refl ?_ (by simpa using hk.ordinary (.branchWithoutValue branch) rfl)
      simp only [Reported.result_bind, Reported.result_pure, AllEvery, and_true]
      exact hk.every_value rfl
    · exact .pure hr
  unfold resolveBranch
  split
  · exact (hs .branch tokens h).bind (hfilled _)
  · exact hfilled tokens h

theorem RunKeeps.twin_resolveConditional {tokens : List Token} (h : AllEvery p false tokens) :
    Reported.Twin (Rewritten p) Q (resolveConditional settle tokens)
      (resolveConditional settle' tokens) := by
  unfold resolveConditional
  split
  · rename_i before whenTrue whenFalse after hsplit
    obtain ⟨rfl, -, -⟩ := splitFirst_eq_some hsplit
    rw [allEvery_append, AllEvery, Token.Every] at h
    refine (hk.twin_resolveBranch hs .whenTrue h.2.1.2.1).bind fun ht => ?_
    refine (hk.twin_resolveBranch hs .whenFalse h.2.1.2.2).bind fun hf => ?_
    generalize (resolveBranch settle .whenFalse whenFalse).result = reduced at hf ⊢
    obtain ⟨reducedFalse, changedFalse⟩ := reduced
    dsimp only
    split
    · refine .pure (Rewritten.some ?_)
      rw [allEvery_append, AllEvery, Token.Every]
      exact ⟨h.1, ⟨hk.conditional _ _, ht, hf⟩, h.2.2⟩
    · exact .pure Rewritten.none
  · exact .pure Rewritten.none

end Steps

/-- What holds of the sequence that a step leaves. -/
def Progressed (p : Bool → Token → Prop) (step : Step) : Prop :=
  ∀ tokens, step = .progressed tokens → AllEvery p false tokens

section Steps

variable (hk : RunKeeps scope limit p Q) (ha : Scope.Alike (p false <| .call · ·) scope scope')
  (hs : Settle.Twin p Q settle settle')

include hk ha hs

theorem RunKeeps.twin_rewriteTokens {tokens : List Token} (h : AllEvery p false tokens) :
    Attempt.Twin (Rewritten p) Q (rewriteTokens scope settle tokens)
      (rewriteTokens scope' settle' tokens) := by
  unfold rewriteTokens
  rw [← ha.store]
  refine (Attempt.Twin.lift (hk.twin_resolveNames scope.store h)).bind fun named _ hnamed => ?_
  refine (hk.twin_resolveCall ha hs hnamed).bind fun called _ hcalled => ?_
  have hcalled' := hcalled.getD hnamed
  refine (Attempt.Twin.lift (hk.twin_resolveGroup hs hcalled')).bind fun grouped _ hgrouped => ?_
  have hgrouped' := hgrouped.getD hcalled'
  refine (Attempt.Twin.lift (hk.twin_resolveConditional hs hgrouped')).bind
    fun chosen _ hchosen => ?_
  dsimp only
  split
  · exact .pure (Rewritten.some (hchosen.getD hgrouped'))
  · exact .pure Rewritten.none

theorem RunKeeps.twin_stepWith {tokens : List Token} (h : AllEvery p false tokens) :
    Attempt.Twin (Progressed p) Q (stepWith scope settle tokens)
      (stepWith scope' settle' tokens) := by
  unfold stepWith
  refine (hk.twin_rewriteTokens ha hs h).bind fun outcome ho hr => ?_
  rcases rewriteTokens_cases ho with ⟨after, rfl, -⟩ | ⟨rfl, hsettled⟩
  · refine .pure ?_
    rintro _ ⟨⟩
    exact hr after rfl
  · refine .lift (.refl ?_ (hk.allCauses_applyFirst hsettled.plain h))
    exact fun after he => hk.allEvery_applyFirst h he

end Steps

/-! The loops. -/

section Loops

variable {levels : Nat}
  (hstep : ∀ tokens, AllEvery p false tokens →
    Attempt.Twin (Progressed p) Q (reduce scope limit levels tokens)
      (reduce scope' limit levels tokens))

include hstep

theorem RunKeeps.twin_settleWith (hk : RunKeeps scope limit p Q) (place : Place) (fuel : Nat)
    {tokens : List Token} (h : AllEvery p false tokens) :
    Reported.Twin (AllEvery p false) Q
      (settleWith (reduce scope limit levels) place fuel tokens)
      (settleWith (reduce scope' limit levels) place fuel tokens) := by
  have hnull : AllEvery p false [.undefined] := by
    simp only [AllEvery, and_true]
    exact hk.every_value rfl
  induction fuel generalizing tokens with
  | zero => exact .pure h
  | succ fuel ih =>
    simp only [settleWith]
    split
    · rename_i hn
      refine Reported.Twin.bind (hstep tokens h) fun hr => ?_
      split
      · rename_i after hafter
        exact ih (hr _ hafter after rfl)
      · rename_i hstalled
        exact absurd hstalled (reduce_ne_stalled scope limit levels hn)
      · rename_i failure hfailure
        refine .refl hnull ?_
        simpa using hk.failed place failure (expected_of_reduce hfailure)
    · exact .pure h

theorem twin_drive (fuel : Nat) {tokens : List Token} (h : AllEvery p false tokens) :
    Attempt.Twin (AllEvery p false) Q (drive (reduce scope limit levels) fuel tokens)
      (drive (reduce scope' limit levels) fuel tokens) := by
  induction fuel generalizing tokens with
  | zero => exact .pure h
  | succ fuel ih =>
    simp only [drive]
    split
    · refine (hstep tokens h).bind fun step _ hr => ?_
      cases step with
      | progressed after => exact ih (hr after rfl)
      | stalled => exact .throw _
    · exact .pure h

end Loops

section Levels

variable (hk : RunKeeps scope limit p Q) (ha : Scope.Alike (p false <| .call · ·) scope scope')

include hk ha

/-- Whatever levels are left, two scopes that are alike to the calls of a sequence take the same
step. -/
theorem RunKeeps.twin_reduce (levels : Nat) {tokens : List Token} (h : AllEvery p false tokens) :
    Attempt.Twin (Progressed p) Q (reduce scope limit levels tokens)
      (reduce scope' limit levels tokens) := by
  induction levels generalizing tokens with
  | zero => exact .throw _
  | succ levels ih =>
    exact hk.twin_stepWith ha
      (fun place inner hi => RunKeeps.twin_settleWith (fun _ => ih) hk place _ hi) h

/-- An evaluation under two scopes that are alike to the calls of its sequence. -/
theorem RunKeeps.twin_evaluateTokens {tokens : List Token}
    (h : AllEvery p false (splitTarget tokens).2)
    (haborted : ∀ failure, (drive (reduce scope limit limit) (sequenceWeight (splitTarget tokens).2)
      (splitTarget tokens).2).run.result = .error failure → Q (.aborted failure)) :
    Reported.Twin (fun _ => True) Q (evaluateTokens limit scope tokens)
      (evaluateTokens limit scope' tokens) := by
  have hdriven := twin_drive (fun _ => hk.twin_reduce ha limit)
    (sequenceWeight (splitTarget tokens).2) h
  rw [evaluateTokens_eq, evaluateTokens_eq, ← ha.store]
  refine Reported.Twin.bind hdriven fun _ => .refl trivial ?_
  simp only [Reported.allCauses_bind, allCauses_conclude hk.ordinary]
  exact ⟨haborted, allCauses_assign hk.ordinary _ _ _⟩

end Levels

end Runs

end Reckon
