import Reckon.Proofs.ReductionOrder
import Reckon.Proofs.SequenceOutcome

/-!
Branches in parentheses.

The canonical text has parentheses around a branch of several tokens. As it stands a branch is settled
before it is chosen from; a group is chosen first and settled in the place of the conditional. The two
give the same value but for a branch without a value: as it stands it is a null there, while a group
without a value is taken out.
-/

namespace Reckon

/-- The conditional with a sequence in one branch, and with another in the other. -/
def Branch.conditional : Branch → List Token → List Token → Token
  | .whenTrue, tokens, other => .conditional tokens other
  | .whenFalse, tokens, other => .conditional other tokens

/-- The branch that a value chooses. -/
def Token.choice (condition : Token) : Branch :=
  if condition.toNumber != 0.0 then .whenTrue else .whenFalse

/-- Whether a token comes to a value that chooses the branch. -/
def Token.Chooses (scope : Scope) (settle : Settle) (branch : Branch) (condition : Token) : Prop :=
  ∃ v, condition.comesTo scope settle = .ok [v] ∧ v.isValue ∧ v.choice = branch

/-- The token that a branch is when it is chosen. -/
def branchToken (settle : Settle) (tokens : List Token) : Token :=
  (resolveBranch settle .whenTrue tokens).result.1.head?.getD .undefined

section
variable {settle : Settle}

theorem result_resolveBranch (branch : Branch) (tokens : List Token) :
    (resolveBranch settle branch tokens).result = (resolveBranch settle .whenTrue tokens).result := by
  match tokens with
  | [] => rfl
  | [_] => rw [resolveBranch_of_single rfl, resolveBranch_of_single rfl]
  | _ :: _ :: _ =>
    rw [result_resolveBranch_of_long (by simp), result_resolveBranch_of_long (by simp)]

theorem ready_conditional (branch : Branch) (tokens other : List Token) (v : Token) :
    ∃ whenTrue whenFalse,
      (branch.conditional tokens other).ready settle = .conditional whenTrue whenFalse ∧
      chooseBranch v whenTrue whenFalse =
        branchToken settle (if v.choice = branch then tokens else other) := by
  have hchoice : v.choice = if v.toNumber != 0.0 then .whenTrue else .whenFalse := rfl
  cases branch with
  | whenTrue =>
    refine ⟨_, _, rfl, ?_⟩
    rw [chooseBranch, hchoice, branchToken, result_resolveBranch .whenFalse]
    cases v.toNumber != 0.0 <;> rfl
  | whenFalse =>
    refine ⟨_, _, rfl, ?_⟩
    rw [chooseBranch, hchoice, branchToken, result_resolveBranch .whenFalse]
    cases v.toNumber != 0.0 <;> rfl

theorem branchToken_group (tokens : List Token) :
    branchToken settle [.group tokens] = .group tokens := by
  rw [branchToken, resolveBranch_of_single rfl]
  rfl

theorem branchToken_of_long {tokens : List Token} (h : 1 < tokens.length) :
    branchToken settle tokens = (settle .branch tokens).result.head?.getD .undefined := by
  rw [branchToken, result_resolveBranch_of_long h]
  cases (settle .branch tokens).result <;> rfl

end

section
variable {levels : Nat} {scope : Scope}

/-- A group of several tokens comes to what they are as a branch, or to nothing if that is null. -/
theorem comesTo_group {tokens : List Token} (h : 1 < tokens.length) :
    (Token.group tokens).comesTo scope (rootSettle levels scope) =
      if branchToken (rootSettle levels scope) tokens = .undefined then .ok []
      else (branchToken (rootSettle levels scope) tokens).comesTo scope (rootSettle levels scope) := by
  have hplace : (rootSettle levels scope .parentheses tokens).result =
      (rootSettle levels scope .branch tokens).result := by
    rw [rootSettle, settleAt, settleAt, result_settleWith, result_settleWith]
  have hlength := length_settled (@rootSettle_done levels scope) .branch tokens
  have hplain (t : Token) (ht : (rootSettle levels scope .branch tokens).result.getLast? = some t) :
      t.isPlain := isPlain_of_settled rootSettle_done ht
  rw [Token.comesTo, branchToken_of_long h, hplace]
  rcases hr : (rootSettle levels scope .branch tokens).result with _ | ⟨t, _ | ⟨_, _⟩⟩
  · rfl
  · rw [List.head?_cons, Option.getD_some]
    split
    · rename_i ht
      rw [ht]
      rfl
    · rename_i ht
      rw [lastValue_eq_some rfl ht, Token.comesTo_of_isPlain (hplain t (by rw [hr]; rfl))]
      rfl
  · simp [hr] at hlength

theorem rootValue_of_rest_failure {rest : List Token} {failure : Failure}
    (h : comesTo scope (rootSettle levels scope) rest = .error failure) (before : List Token) :
    rootValue (levels + 1) scope (before ++ rest) = .undefined := by
  have hall := @comesTo_append scope (rootSettle levels scope) before rest
  rw [h] at hall
  cases hbefore : comesTo scope (rootSettle levels scope) before with
  | error _ | ok _ =>
    rw [hbefore] at hall
    exact rootValue_of_failure hall

/-- A conditional without a condition is dropped. -/
theorem rootValue_conditional (whenTrue whenFalse rest : List Token) :
    rootValue (levels + 1) scope (.conditional whenTrue whenFalse :: rest) =
      rootValue (levels + 1) scope rest := by
  cases hrest : comesTo scope (rootSettle levels scope) rest with
  | error failure =>
    rw [rootValue_of_failure hrest]
    exact rootValue_of_rest_failure hrest [_]
  | ok done =>
    have hall := comesTo_cons (t := .conditional whenTrue whenFalse) (Token.comesTo_of_isPlain rfl) hrest
    rw [rootValue_of_comesTo hrest]
    cases done with
    | nil =>
      rw [rootValue_of_comesTo hall, rootValue_of_not_needsReduction rfl,
        rootValue_of_not_needsReduction rfl]
      rfl
    | cons _ _ => exact rootValue_of_applyFirst hall rfl rfl

theorem applyFirst_of_not_isValue {t : Token} (hplain : t.isPlain) (ht : ¬t.isValue)
    (whenTrue whenFalse more : List Token) :
    (applyFirst (t :: .conditional whenTrue whenFalse :: more)).result =
      .progressed (.conditional whenTrue whenFalse :: more) := by
  cases t with
  | name _ | call _ _ | group _ => simp [Token.isPlain] at hplain
  | undefined | number _ | text _ => exact absurd rfl ht
  | conditional _ _ => rfl
  | operator op => cases op <;> rfl

/-- A conditional is dropped with a condition that has no value. -/
theorem rootValue_of_no_value {c : Token} {us : List Token}
    (h : c.comesTo scope (rootSettle levels scope) = .ok us) (hno : ∀ v, us = [v] → ¬v.isValue)
    (whenTrue whenFalse rest : List Token) :
    rootValue (levels + 1) scope (c :: .conditional whenTrue whenFalse :: rest) =
      rootValue (levels + 1) scope rest := by
  rw [← rootValue_conditional whenTrue whenFalse rest]
  cases hrest : comesTo scope (rootSettle levels scope) (.conditional whenTrue whenFalse :: rest) with
  | error failure =>
    rw [rootValue_of_failure hrest]
    exact rootValue_of_rest_failure hrest [_]
  | ok done =>
    rcases Token.comesTo_cases rootSettle_done h with rfl | ⟨u, rfl, hplain, -⟩
    · refine rootValue_congr ?_
      rw [comesTo, h, hrest]
      rfl
    · have hall := comesTo_cons h hrest
      obtain ⟨_, more, hready, -, rfl⟩ := comesTo_cons_eq_ok.mp hrest
      obtain rfl := Except.ok.inj hready
      rw [rootValue_of_comesTo hrest]
      exact rootValue_of_applyFirst hall (needsReduction_of_long (by simp))
        (applyFirst_of_not_isValue hplain (hno u rfl) _ _ _)

/-- The branch that is chosen stands in the place of the condition and the conditional. -/
theorem rootValue_of_choice {c v : Token} (h : c.comesTo scope (rootSettle levels scope) = .ok [v])
    (hv : v.isValue) (branch : Branch) (tokens other rest : List Token) :
    rootValue (levels + 1) scope (c :: branch.conditional tokens other :: rest) =
      rootValue (levels + 1) scope (branchToken (rootSettle levels scope)
        (if v.choice = branch then tokens else other) :: rest) := by
  cases hrest : comesTo scope (rootSettle levels scope) rest with
  | error failure =>
    exact (rootValue_of_rest_failure hrest [_, _]).trans (rootValue_of_rest_failure hrest [_]).symm
  | ok done =>
    obtain ⟨whenTrue, whenFalse, hready, hchoice⟩ :=
      @ready_conditional (rootSettle levels scope) branch tokens other v
    have hconditional : (branch.conditional tokens other).comesTo scope (rootSettle levels scope) =
        .ok [.conditional whenTrue whenFalse] := by
      rw [← hready]
      cases branch <;> rfl
    have hall := comesTo_cons h (comesTo_cons hconditional hrest)
    rw [rootValue_of_applyFirst hall (needsReduction_of_long (by simp)) (applyFirst_conditional hv _ _ _),
      hchoice]
    refine rootValue_congr ?_
    rw [comesTo, comesTo, comesTo_done rootSettle_done hrest, hrest]

/-- A group before other tokens stands for what its tokens are as a branch, and for nothing if that is
null. -/
theorem rootValue_group {tokens : List Token} (h : 1 < tokens.length) (rest : List Token) :
    rootValue (levels + 1) scope (.group tokens :: rest) =
      if branchToken (rootSettle levels scope) tokens = .undefined then rootValue (levels + 1) scope rest
      else rootValue (levels + 1) scope (branchToken (rootSettle levels scope) tokens :: rest) := by
  have hgroup := @comesTo_group levels scope tokens h
  split
  · rename_i hnull
    rw [if_pos hnull] at hgroup
    refine rootValue_congr ?_
    rw [comesTo, hgroup]
    cases comesTo scope (rootSettle levels scope) rest <;> rfl
  · rename_i hnull
    rw [if_neg hnull] at hgroup
    refine rootValue_congr ?_
    rw [comesTo, comesTo, hgroup]

theorem rootValue_parenthesized {b : List Token} (hb : 1 < b.length) (c : Token) (branch : Branch)
    (other rest : List Token) (h : c.Chooses scope (rootSettle levels scope) branch →
      branchToken (rootSettle levels scope) b = .undefined → rest = []) :
    rootValue (levels + 1) scope (c :: branch.conditional b other :: rest) =
      rootValue (levels + 1) scope (c :: branch.conditional [.group b] other :: rest) := by
  -- Without a value of the condition no branch is looked at, so the forms need not be compared.
  have hunchosen (us : List Token) (hus : c.comesTo scope (rootSettle levels scope) = .ok us)
      (hno : ∀ v, us = [v] → ¬v.isValue) (tokens : List Token) :
      rootValue (levels + 1) scope (c :: branch.conditional tokens other :: rest) =
        rootValue (levels + 1) scope rest := by
    cases branch <;> exact rootValue_of_no_value hus hno _ _ rest
  cases hc : c.comesTo scope (rootSettle levels scope) with
  | error failure =>
    have hall (more : List Token) : rootValue (levels + 1) scope (c :: more) = .undefined := by
      have hfails : comesTo scope (rootSettle levels scope) (c :: more) = .error failure := by
        rw [comesTo, hc]
        rfl
      exact rootValue_of_failure hfails
    rw [hall, hall]
  | ok us =>
    by_cases hv : ∃ v, us = [v] ∧ v.isValue
    · obtain ⟨v, rfl, hv⟩ := hv
      rw [rootValue_of_choice hc hv, rootValue_of_choice hc hv]
      split
      · rename_i hchoice
        rw [branchToken_group, rootValue_group hb]
        split
        · rename_i hnull
          rw [hnull, h ⟨v, hc, hv, hchoice⟩ hnull, rootValue_of_not_needsReduction rfl,
            rootValue_of_not_needsReduction rfl]
          rfl
        · rfl
      · rfl
    · have hno (v : Token) (hus : us = [v]) : ¬v.isValue := fun hvalue => hv ⟨v, hus, hvalue⟩
      rw [hunchosen us hc hno, hunchosen us hc hno]

theorem result_evaluateTokens_conditional (limit : Nat) (c : Token) (branch : Branch)
    (tokens other rest : List Token) :
    (evaluateTokens limit scope (c :: branch.conditional tokens other :: rest)).result =
      (rootValue limit scope (c :: branch.conditional tokens other :: rest), scope.store) := by
  have htarget : splitTarget (c :: branch.conditional tokens other :: rest) =
      (none, c :: branch.conditional tokens other :: rest) := by
    cases branch <;> cases c <;> rfl
  rw [result_evaluateTokens, htarget]
  rfl

/-- A branch of several tokens can be put in parentheses, unless it is chosen, comes to null and is
followed by something: then a null is left before what follows, but nothing in the place of the group. -/
theorem evaluateTokens_parenthesized (levels : Nat) (scope : Scope) (branch : Branch) (c : Token)
    {b : List Token} (hb : 1 < b.length) (other rest : List Token) :
    ((c.Chooses scope (rootSettle levels scope) branch →
        branchToken (rootSettle levels scope) b = .undefined → rest = []) →
      (evaluateTokens (levels + 1) scope (c :: branch.conditional b other :: rest)).result =
        (evaluateTokens (levels + 1) scope (c :: branch.conditional [.group b] other :: rest)).result) ∧
    (c.Chooses scope (rootSettle levels scope) branch →
      branchToken (rootSettle levels scope) b = .undefined →
      (evaluateTokens (levels + 1) scope (c :: branch.conditional b other :: rest)).result =
        (rootValue (levels + 1) scope (.undefined :: rest), scope.store) ∧
      (evaluateTokens (levels + 1) scope (c :: branch.conditional [.group b] other :: rest)).result =
        (rootValue (levels + 1) scope rest, scope.store)) := by
  simp only [result_evaluateTokens_conditional, Prod.mk.injEq, and_true]
  refine ⟨rootValue_parenthesized hb c branch other rest, ?_⟩
  rintro ⟨v, hc, hv, hchoice⟩ hnull
  rw [rootValue_of_choice hc hv, rootValue_of_choice hc hv, if_pos hchoice, if_pos hchoice, hnull,
    branchToken_group, rootValue_group hb, if_pos hnull]
  exact ⟨rfl, rfl⟩

/-- A branch of two texts may have parentheses. Of two nulls, one is left before what follows. -/
theorem evaluateTokens_parenthesized_texts :
    (evaluateTokens 8 nullScope (.number 1 ::
        Branch.whenTrue.conditional [.text "a", .text "b"] [] :: [.text "c"])).result =
      (evaluateTokens 8 nullScope (.number 1 ::
        Branch.whenTrue.conditional [.group [.text "a", .text "b"]] [] :: [.text "c"])).result ∧
    (evaluateTokens 8 nullScope (.number 0 ::
        Branch.whenFalse.conditional [.call "nul" [], .undefined] [] :: [.text "c"])).result =
      (rootValue 8 nullScope [.undefined, .text "c"], .empty) ∧
    (evaluateTokens 8 nullScope (.number 0 ::
        Branch.whenFalse.conditional [.group [.call "nul" [], .undefined]] [] :: [.text "c"])).result =
      (rootValue 8 nullScope [.text "c"], .empty) := by
  have htexts : branchToken (rootSettle 7 nullScope) [.text "a", .text "b"] ≠ .undefined := by decide
  have hnulls : branchToken (rootSettle 7 nullScope) [.call "nul" [], .undefined] = .undefined := by rfl
  have hchooses : (Token.number 0).Chooses nullScope (rootSettle 7 nullScope) .whenFalse :=
    ⟨.number 0, rfl, rfl, by decide⟩
  exact ⟨(evaluateTokens_parenthesized 7 nullScope .whenTrue (.number 1) (by decide) [] _).1
      fun _ hnull => absurd hnull htexts,
    (evaluateTokens_parenthesized 7 nullScope .whenFalse (.number 0) (by decide) [] _).2
      hchooses hnulls⟩

/-- A null before a number is joined to it, and parentheses without a value leave the number alone. -/
theorem evaluateTokens_parenthesized_null :
    let call := Token.call "nul" []
    let rest : List Token := [.operator .cat, .number 5]
    (evaluateTokens 8 nullScope (.number 1 :: .conditional [call, call] [.number 2] :: rest)).result.1 =
      .text "null5" ∧
    (evaluateTokens 8 nullScope
      (.number 1 :: .conditional [.group [call, call]] [.number 2] :: rest)).result.1 = .number 5 := by
  decide +kernel

end

end Reckon
