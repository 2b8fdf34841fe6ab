import Mathlib.Logic.Relation
import Reckon.Reduction

/-!
What one step of reduction can do to a sequence.

A step either makes some single rewrites, each of one token in its place, or finds none to make and
combines the first operand with what follows it. Later modules derive what a step preserves or lessens
from the rewrites one at a time, whatever their order inside a step.
-/

namespace Reckon

/-- A token that stays as it is until operators are applied. -/
def Token.isPlain : Token → Bool
  | .name _ | .call _ _ | .group _ => false
  | _ => true

/-- A number, a text or the null. -/
def Token.isValue : Token → Bool
  | .undefined | .number _ | .text _ => true
  | _ => false

theorem value_cases {t : Token} (h : t.isValue) :
    t = .undefined ∨ (∃ n, t = .number n) ∨ ∃ s, t = .text s := by
  cases t with
  | undefined => exact .inl rfl
  | number n => exact .inr (.inl ⟨n, rfl⟩)
  | text s => exact .inr (.inr ⟨s, rfl⟩)
  | operator _ | name _ | call _ _ | group _ | conditional _ _ => contradiction

theorem Token.isPlain_of_isValue {t : Token} (h : t.isValue) : t.isPlain := by
  obtain rfl | ⟨_, rfl⟩ | ⟨_, rfl⟩ := value_cases h <;> rfl

theorem plain_cases {t : Token} (h : t.isPlain) :
    t.isValue ∨ (∃ op, t = .operator op) ∨
      ∃ whenTrue whenFalse, t = .conditional whenTrue whenFalse := by
  cases t with
  | undefined | number _ | text _ => exact .inl rfl
  | operator op => exact .inr (.inl ⟨op, rfl⟩)
  | conditional whenTrue whenFalse => exact .inr (.inr ⟨whenTrue, whenFalse, rfl⟩)
  | name _ | call _ _ | group _ => simp [Token.isPlain] at h

/-- Whether the operator stands between two operands. -/
def Operator.isBinary : Operator → Bool
  | .not | .notNot | .set | .comma => false
  | _ => true

/-- Nothing is left but to apply operators: no name, call or group, and the first conditional has
branches of one token. -/
structure Settled (tokens : List Token) : Prop where
  plain : ∀ t ∈ tokens, t.isPlain
  single : ∀ before whenTrue whenFalse after,
    splitFirst isConditional tokens = some (before, .conditional whenTrue whenFalse, after) →
      whenTrue.length = 1 ∧ whenFalse.length = 1

/-- The token in the place of a group, if there is one. -/
def lastValue (tokens : List Token) : Option Token :=
  tokens.getLast?.filter (!·.isUndefined)

theorem lastValue_eq_none {tokens : List Token} :
    lastValue tokens = none ↔ tokens.getLast?.getD .undefined = .undefined := by
  unfold lastValue
  cases tokens.getLast? with
  | none => simp
  | some t => cases t <;> simp [Token.isUndefined]

theorem lastValue_eq_some {tokens : List Token} {t : Token} (h : tokens.getLast? = some t)
    (ht : t ≠ .undefined) : lastValue tokens = some t := by
  rw [lastValue, h]
  cases t <;> first | rfl | exact absurd rfl ht

/-- One token of a sequence replaced or taken out, before any operator is applied. -/
inductive Rewrites (scope : Scope) (settle : Settle) : List Token → List Token → Prop
  | name (before : List Token) (s : String) (after : List Token) :
      Rewrites scope settle (before ++ .name s :: after)
        (before ++ (lookup scope.store s).result :: after)
  | call (before : List Token) {s : String} {arguments after : List Token} {t : Token}
      (h : (performCall scope settle s arguments).run.result = .ok t) :
      Rewrites scope settle (before ++ .call s arguments :: after) (before ++ t :: after)
  | group (before : List Token) {inner after : List Token} {t : Token}
      (h : (settle .parentheses inner).result.getLast? = some t) (ht : t ≠ .undefined) :
      Rewrites scope settle (before ++ .group inner :: after) (before ++ t :: after)
  | groupGone (before : List Token) {inner after : List Token}
      (h : (settle .parentheses inner).result.getLast?.getD .undefined = .undefined) :
      Rewrites scope settle (before ++ .group inner :: after) (before ++ after)
  | conditional (before : List Token) {whenTrue whenFalse after : List Token}
      (h : ¬(whenTrue.length = 1 ∧ whenFalse.length = 1)) :
      Rewrites scope settle (before ++ .conditional whenTrue whenFalse :: after)
        (before ++ .conditional (resolveBranch settle .whenTrue whenTrue).result.1
          (resolveBranch settle .whenFalse whenFalse).result.1 :: after)

variable {scope : Scope} {settle : Settle}

theorem Rewrites.cons {tokens after : List Token} (t : Token)
    (h : Rewrites scope settle tokens after) :
    Rewrites scope settle (t :: tokens) (t :: after) := by
  cases h with
  | name before s after => exact .name (t :: before) s after
  | call before h => exact .call (t :: before) h
  | group before h ht => exact .group (t :: before) h ht
  | groupGone before h => exact .groupGone (t :: before) h
  | conditional before h => exact .conditional (t :: before) h

/-- Any number of rewrites. -/
abbrev RewritesTo (scope : Scope) (settle : Settle) : List Token → List Token → Prop :=
  Relation.ReflTransGen (Rewrites scope settle)

theorem RewritesTo.cons {tokens after : List Token} (t : Token)
    (h : RewritesTo scope settle tokens after) :
    RewritesTo scope settle (t :: tokens) (t :: after) :=
  Relation.ReflTransGen.lift (t :: ·) (fun _ _ h => h.cons t) _ _ h

/-- The outcome of a call: null without a function, else what the function makes of the values of the
arguments. -/
theorem result_performCall (scope : Scope) (settle : Settle) (s : String)
    (arguments : List Token) :
    (performCall scope settle s arguments).run.result =
      if s.isEmpty then .ok .undefined
      else match scope.functions.get? s with
        | none => .ok .undefined
        | some function =>
          (function (argumentValues settle (splitArguments arguments)).result).map .ofValue := by
  unfold performCall
  split
  · rfl
  · cases scope.functions.get? s with
    | none => rfl
    | some function =>
      simp only [ExceptT.run_bind, ExceptT.run_liftM, bind_map_left, Reported.result_bind]
      cases function (argumentValues settle (splitArguments arguments)).result with
      | ok v => rfl
      | error failure => rfl

/-! The first token of a kind. -/

theorem splitFirst_eq_some {p : Token → Bool} {tokens before after : List Token} {t : Token}
    (h : splitFirst p tokens = some (before, t, after)) :
    tokens = before ++ t :: after ∧ p t ∧ ∀ s ∈ before, ¬p s := by
  induction tokens generalizing before with
  | nil => simp [splitFirst] at h
  | cons s rest ih =>
    simp only [splitFirst] at h
    by_cases hs : p s = true
    · simp only [hs, if_true, Option.some.injEq, Prod.mk.injEq] at h
      obtain ⟨rfl, rfl, rfl⟩ := h
      exact ⟨rfl, hs, by simp⟩
    · simp only [if_neg hs, Option.map_eq_some_iff, Prod.mk.injEq] at h
      obtain ⟨⟨more, t', after'⟩, hm, rfl, rfl, rfl⟩ := h
      obtain ⟨rfl, hp, hb⟩ := ih hm
      refine ⟨rfl, hp, ?_⟩
      rintro u (_ | ⟨_, hu⟩)
      · exact hs
      · exact hb u hu

theorem splitFirst_eq_none {p : Token → Bool} {tokens : List Token} :
    splitFirst p tokens = none ↔ ∀ t ∈ tokens, ¬p t := by
  induction tokens with
  | nil => simp [splitFirst]
  | cons s rest ih =>
    by_cases hs : p s = true <;> simp [splitFirst, hs, ih]

theorem splitFirst_conditional {first : Token} (h : isConditional first = false)
    (whenTrue whenFalse rest : List Token) :
    splitFirst isConditional (first :: .conditional whenTrue whenFalse :: rest) =
      some ([first], .conditional whenTrue whenFalse, rest) := by
  rw [splitFirst, h]
  rfl

/-- The branches of a conditional after a value are of one token. -/
theorem Settled.single_branches {first : Token} {whenTrue whenFalse rest : List Token}
    (h : Settled (first :: .conditional whenTrue whenFalse :: rest)) (hfirst : first.isValue) :
    whenTrue.length = 1 ∧ whenFalse.length = 1 := by
  refine h.single [first] whenTrue whenFalse rest (splitFirst_conditional ?_ ..)
  obtain rfl | ⟨_, rfl⟩ | ⟨_, rfl⟩ := value_cases hfirst <;> rfl

/-! Each phase of a step is a run of rewrites, or has nothing to do. -/

theorem rewritesTo_resolveNames (scope : Scope) (settle : Settle) (tokens : List Token) :
    RewritesTo scope settle tokens (resolveNames scope.store tokens).result := by
  induction tokens with
  | nil => exact .refl
  | cons t rest ih =>
    cases t with
    | name s => exact .head (.name [] s rest) (ih.cons _)
    | undefined | number _ | text _ | operator _ | call _ _ | group _ | conditional _ _ =>
      exact ih.cons _

theorem transGen_resolveNames (scope : Scope) (settle : Settle) {tokens : List Token} (h : tokens.any Token.isName) :
    Relation.TransGen (Rewrites scope settle) tokens (resolveNames scope.store tokens).result := by
  induction tokens with
  | nil => simp at h
  | cons t rest ih =>
    cases t with
    | name s => exact .head' (.name [] s rest) ((rewritesTo_resolveNames scope settle rest).cons _)
    | undefined | number _ | text _ | operator _ | call _ _ | group _ | conditional _ _ =>
      have hr := ih (by simpa [Token.isName] using h)
      exact Relation.TransGen.lift (_ :: ·) (fun _ _ h => h.cons _) _ _ hr

theorem resolveNames_eq_pure {tokens : List Token} (store : Table Value)
    (h : tokens.any Token.isName = false) : resolveNames store tokens = pure tokens := by
  induction tokens with
  | nil => rfl
  | cons t rest ih =>
    rw [List.any_cons, Bool.or_eq_false_iff] at h
    cases t with
    | name s => exact absurd h.1 (by simp [Token.isName])
    | undefined | number _ | text _ | operator _ | call _ _ | group _ | conditional _ _ =>
      simp [resolveNames, ih h.2]

theorem rewrites_of_resolveCall {tokens : List Token} {outcome : Option (List Token)}
    (h : (resolveCall scope settle tokens).run.result = .ok outcome) :
    ∀ after, outcome = some after → Rewrites scope settle tokens after := by
  rintro after rfl
  unfold resolveCall at h
  split at h
  · rename_i before s arguments rest hs
    obtain ⟨rfl, -, -⟩ := splitFirst_eq_some hs
    simp only [ExceptT.run_bind, Reported.result_bind] at h
    cases hc : (performCall scope settle s arguments).run.result with
    | ok t =>
      simp only [hc, ExceptT.run_pure, Reported.result_pure, Except.ok.injEq,
        Option.some.injEq] at h
      exact h ▸ .call before hc
    | error failure => simp [hc] at h
  · simp at h

theorem isCall_of_resolveCall {tokens : List Token}
    (h : (resolveCall scope settle tokens).run.result = .ok none) :
    ∀ t ∈ tokens, ¬isCall t := by
  unfold resolveCall at h
  split at h
  · rename_i before s arguments rest hs
    simp only [ExceptT.run_bind, Reported.result_bind] at h
    split at h <;> simp at h
  · rename_i hs
    apply splitFirst_eq_none.mp
    cases ht : splitFirst isCall tokens with
    | none => rfl
    | some found =>
      obtain ⟨before, t, after⟩ := found
      obtain ⟨-, hp, -⟩ := splitFirst_eq_some ht
      cases t with
      | call s arguments => exact absurd ht (hs before s arguments after)
      | undefined | number _ | text _ | operator _ | name _ | group _ | conditional _ _ =>
        simp [isCall] at hp

theorem performCall_of_resolveCall {tokens : List Token} {failure : Failure}
    (h : (resolveCall scope settle tokens).run.result = .error failure) :
    ∃ before s arguments after, splitFirst isCall tokens = some (before, .call s arguments, after) ∧
      (performCall scope settle s arguments).run.result = .error failure := by
  unfold resolveCall at h
  split at h
  · rename_i before s arguments rest hs
    refine ⟨before, s, arguments, rest, hs, ?_⟩
    simp only [ExceptT.run_bind, Reported.result_bind] at h
    split at h <;> simp_all
  · simp at h

theorem rewrites_of_resolveGroup (scope : Scope) (settle : Settle) (tokens : List Token) :
    ∀ after, (resolveGroup settle tokens).result = some after →
      Rewrites scope settle tokens after := by
  intro after h
  unfold resolveGroup at h
  split at h
  · rename_i before inner rest hs
    obtain ⟨rfl, -, -⟩ := splitFirst_eq_some hs
    simp only [Reported.result_bind] at h
    split at h
    · rename_i hl
      simp only [Reported.result_bind, Reported.result_pure, Option.some.injEq] at h
      exact h ▸ .groupGone before (by simp [hl])
    · rename_i t ht hl
      simp only [Reported.result_pure, Option.some.injEq] at h
      exact h ▸ .group before hl (by rintro rfl; exact ht rfl)
    · rename_i hl
      simp only [Reported.result_bind, Reported.result_pure, Option.some.injEq] at h
      exact h ▸ .groupGone before (by simp [hl])
  · simp at h

theorem isGroup_of_resolveGroup {tokens : List Token}
    (h : (resolveGroup settle tokens).result = none) : ∀ t ∈ tokens, ¬isGroup t := by
  apply splitFirst_eq_none.mp
  cases hs : splitFirst isGroup tokens with
  | none => rfl
  | some found =>
    obtain ⟨before, t, after⟩ := found
    obtain ⟨-, hp, -⟩ := splitFirst_eq_some hs
    cases t with
    | group inner =>
      simp only [resolveGroup, hs, Reported.result_bind] at h
      split at h <;> simp at h
    | undefined | number _ | text _ | operator _ | name _ | call _ _ | conditional _ _ =>
      simp [isGroup] at hp

theorem resolveBranch_of_single {branch : Branch} {tokens : List Token} (h : tokens.length = 1) :
    resolveBranch settle branch tokens = pure (tokens, false) := by
  have hn : tokens ≠ [] := by rintro rfl; simp at h
  simp [resolveBranch, h, hn]

theorem result_resolveBranch_nil (branch : Branch) :
    (resolveBranch settle branch []).result = ([.undefined], true) := rfl

theorem result_resolveBranch_of_long {branch : Branch} {tokens : List Token}
    (h : 1 < tokens.length) :
    (resolveBranch settle branch tokens).result =
      (if (settle .branch tokens).result = [] then [.undefined]
        else (settle .branch tokens).result, true) := by
  simp only [resolveBranch, gt_iff_lt, h, if_true, Reported.result_bind, List.isEmpty_iff,
    decide_true]
  split <;> rfl

theorem resolveBranch_snd (branch : Branch) (tokens : List Token) :
    (resolveBranch settle branch tokens).result.2 = !decide (tokens.length = 1) := by
  match tokens with
  | [] => rfl
  | [_] => rw [resolveBranch_of_single rfl]; rfl
  | a :: b :: rest => rw [result_resolveBranch_of_long (by simp)]; simp

theorem rewrites_of_resolveConditional (scope : Scope) (settle : Settle) (tokens : List Token) :
    ∀ after, (resolveConditional settle tokens).result = some after →
      Rewrites scope settle tokens after := by
  intro after h
  unfold resolveConditional at h
  split at h
  · rename_i before whenTrue whenFalse rest hs
    obtain ⟨rfl, -, -⟩ := splitFirst_eq_some hs
    simp only [Reported.result_bind, resolveBranch_snd] at h
    split at h
    · rename_i hb
      simp only [Reported.result_pure, Option.some.injEq] at h
      exact h ▸ .conditional before (Classical.not_and_iff_not_or_not.mpr (by simpa using hb))
    · simp at h
  · simp at h

theorem single_of_resolveConditional {tokens before whenTrue whenFalse after : List Token}
    (h : (resolveConditional settle tokens).result = none)
    (hs : splitFirst isConditional tokens =
      some (before, .conditional whenTrue whenFalse, after)) :
    whenTrue.length = 1 ∧ whenFalse.length = 1 := by
  simp only [resolveConditional, hs, Reported.result_bind, resolveBranch_snd] at h
  split at h
  · simp at h
  · rename_i hb
    simpa using hb

/-! The step as a whole. -/

/-- A phase that may find nothing to do moves by rewrites, and by some if it found something. -/
theorem rewrites_phase {tokens : List Token} {outcome : Option (List Token)}
    (h : ∀ after, outcome = some after → Rewrites scope settle tokens after) :
    RewritesTo scope settle tokens (outcome.getD tokens) ∧
      (outcome.isSome → Relation.TransGen (Rewrites scope settle) tokens (outcome.getD tokens)) := by
  cases outcome with
  | none => exact ⟨.refl, by simp⟩
  | some after => exact ⟨.single (h after rfl), fun _ => .single (h after rfl)⟩

/-- The phases one after the other rewrite something, or there is nothing to rewrite. -/
theorem rewriteTokens_cases {tokens : List Token} {outcome : Option (List Token)}
    (h : (rewriteTokens scope settle tokens).run.result = .ok outcome) :
    (∃ after, outcome = some after ∧
      Relation.TransGen (Rewrites scope settle) tokens after) ∨
    (outcome = none ∧ Settled tokens) := by
  simp only [rewriteTokens, ExceptT.run_bind, ExceptT.run_liftM, bind_map_left,
    Reported.result_bind] at h
  split at h
  case h_2 => simp at h
  rename_i called hc
  simp only [apply_ite ExceptT.run, ExceptT.run_pure, Reported.result_bind] at h
  have toNamed := rewritesTo_resolveNames scope settle tokens
  generalize hn : (resolveNames scope.store tokens).result = named at h hc toNamed
  have toCalled := rewrites_phase (rewrites_of_resolveCall hc)
  generalize hca : called.getD named = afterCall at h toCalled
  have toGrouped := rewrites_phase (rewrites_of_resolveGroup scope settle afterCall)
  generalize hg : (resolveGroup settle afterCall).result = grouped at h toGrouped
  generalize hga : grouped.getD afterCall = afterGroup at h toGrouped
  have toChosen := rewrites_phase (rewrites_of_resolveConditional scope settle afterGroup)
  generalize ho : (resolveConditional settle afterGroup).result = chosen at h toChosen
  split at h
  · rename_i changed
    simp only [Reported.result_pure, Except.ok.injEq] at h
    refine .inl ⟨_, h.symm, ?_⟩
    simp only [Bool.or_eq_true] at changed
    rcases changed with ((hname | hcall) | hgroup) | hchosen
    · have hfirst := hn ▸ transGen_resolveNames scope settle hname
      exact hfirst.trans_left (toCalled.1.trans (toGrouped.1.trans toChosen.1))
    · exact ((toCalled.2 hcall).trans_left (toGrouped.1.trans toChosen.1)).trans_right toNamed
    · exact ((toGrouped.2 hgroup).trans_left toChosen.1).trans_right (toNamed.trans toCalled.1)
    · exact (toChosen.2 hchosen).trans_right (toNamed.trans (toCalled.1.trans toGrouped.1))
  · rename_i unchanged
    simp only [Bool.or_eq_true, not_or, Bool.not_eq_true, Option.isSome_eq_false_iff,
      Option.isNone_iff_eq_none] at unchanged
    obtain ⟨⟨⟨hname, rfl⟩, rfl⟩, rfl⟩ := unchanged
    rw [resolveNames_eq_pure scope.store hname, Reported.result_pure] at hn
    simp only [Option.getD_none] at hca hga
    subst hn hca hga
    refine .inr ⟨by simpa using h.symm, ?_, fun _ _ _ _ => single_of_resolveConditional ho⟩
    intro t ht
    have hnn := List.any_eq_false.mp hname t ht
    have hnc := isCall_of_resolveCall hc t ht
    have hng := isGroup_of_resolveGroup hg t ht
    cases t with
    | name s => exact absurd rfl hnn
    | call s arguments => exact absurd rfl hnc
    | group inner => exact absurd rfl hng
    | undefined | number _ | text _ | operator _ | conditional _ _ => rfl

/-- Only a call fails, and names are all that is rewritten before it. -/
theorem performCall_of_rewriteTokens {tokens : List Token} {failure : Failure}
    (h : (rewriteTokens scope settle tokens).run.result = .error failure) :
    ∃ before s arguments after, splitFirst isCall (resolveNames scope.store tokens).result =
        some (before, .call s arguments, after) ∧
      (performCall scope settle s arguments).run.result = .error failure := by
  simp only [rewriteTokens, ExceptT.run_bind, ExceptT.run_liftM, bind_map_left,
    Reported.result_bind] at h
  split at h
  · simp only [apply_ite ExceptT.run, ExceptT.run_pure, Reported.result_bind] at h
    split at h <;> simp at h
  · rename_i failed hf
    simp only [Reported.result_pure, Except.error.injEq] at h
    exact performCall_of_resolveCall (h ▸ hf)

/-- A step makes rewrites, or finds nothing to rewrite and combines the first operand. -/
theorem stepWith_cases {tokens : List Token} {step : Step}
    (h : (stepWith scope settle tokens).run.result = .ok step) :
    (∃ after, step = .progressed after ∧
      Relation.TransGen (Rewrites scope settle) tokens after) ∨
    (Settled tokens ∧ step = (applyFirst tokens).result) := by
  simp only [stepWith, ExceptT.run_bind, Reported.result_bind] at h
  split at h
  case h_2 => simp at h
  rename_i outcome ho
  rcases rewriteTokens_cases ho with ⟨after, rfl, hr⟩ | ⟨rfl, hs⟩
  · exact .inl ⟨after, by simpa using h.symm, hr⟩
  · exact .inr ⟨hs, by simpa using h.symm⟩

theorem rewriteTokens_of_stepWith {tokens : List Token} {failure : Failure}
    (h : (stepWith scope settle tokens).run.result = .error failure) :
    (rewriteTokens scope settle tokens).run.result = .error failure := by
  simp only [stepWith, ExceptT.run_bind, Reported.result_bind] at h
  split at h
  · rename_i outcome ho
    split at h <;> simp at h
  · rename_i failed hf
    rw [hf]
    simpa using h

theorem performCall_of_stepWith {tokens : List Token} {failure : Failure}
    (h : (stepWith scope settle tokens).run.result = .error failure) :
    ∃ before s arguments after,
      RewritesTo scope settle tokens (before ++ .call s arguments :: after) ∧
      (performCall scope settle s arguments).run.result = .error failure := by
  obtain ⟨before, s, arguments, after, hs, hp⟩ :=
    performCall_of_rewriteTokens (rewriteTokens_of_stepWith h)
  have hnamed := rewritesTo_resolveNames scope settle tokens
  rw [(splitFirst_eq_some hs).1] at hnamed
  exact ⟨before, s, arguments, after, hnamed, hp⟩

/-! The first operand and what follows it. -/

section
variable {t : Token} (ht : t.isValue)
include ht

theorem applyFirst_conditional (whenTrue whenFalse more : List Token) :
    (applyFirst (t :: .conditional whenTrue whenFalse :: more)).result =
      .progressed (chooseBranch t whenTrue whenFalse :: more) := by
  obtain rfl | ⟨_, rfl⟩ | ⟨_, rfl⟩ := value_cases ht <;> rfl

theorem applyFirst_operator (op : Operator) (more : List Token) :
    (applyFirst (t :: .operator op :: more)).result =
      .progressed (applyOperator t op more).result := by
  obtain rfl | ⟨_, rfl⟩ | ⟨_, rfl⟩ := value_cases ht <;> rfl

theorem applyFirst_value {next : Token} (hnext : next.isValue) (more : List Token) :
    (applyFirst (t :: next :: more)).result = .progressed ((mergeAdjacent t next).result :: more) := by
  obtain rfl | ⟨_, rfl⟩ | ⟨_, rfl⟩ := value_cases ht <;>
    obtain rfl | ⟨_, rfl⟩ | ⟨_, rfl⟩ := value_cases hnext <;> rfl

end

/-- What a binary operator makes of its left operand and what follows it, signs folded. -/
def applyToOperands (lhs : Token) (op : Operator) : List Token → Reported (List Token)
  | .operator found :: more => do
    report (.operatorForRight op found)
    pure (lhs :: .operator found :: more)
  | rhs :: more => do
    let token ← applyBinary op lhs rhs
    pure (token :: more)
  | [] => pure [lhs]

end Reckon
