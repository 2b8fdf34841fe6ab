import Reckon.Proofs.NestingLimit

/-!
How many levels of nesting reduction takes.

The levels that a sequence takes can be told from its shape: one for each sequence that needs reduction
inside another. A branch of a single token takes none of its own, since that token comes to stand in the
sequence of the conditional. A sequence that fits its levels does not meet the limit under any tables.
Where there are no conditionals the shape decides: a sequence that does not fit meets the limit under
some tables.
-/

namespace Reckon

mutual

/-- Whether all sequences that are reduced inside a token have a property: arguments one by one, the
interior of a group, and branches of more than one token. A token by itself in a group or a branch may
come to stand outside, so it counts where it may come to stand. -/
def Token.Confined (p : List Token → Prop) : Token → Prop
  | .call _ arguments => ∀ slot ∈ splitArguments arguments, p slot
  | .group inner => p inner ∧ AloneConfined p inner
  | .conditional whenTrue whenFalse =>
    (1 < whenTrue.length → p whenTrue) ∧ AloneConfined p whenTrue ∧
      (1 < whenFalse.length → p whenFalse) ∧ AloneConfined p whenFalse
  | _ => True

def AloneConfined (p : List Token → Prop) : List Token → Prop
  | [t] => t.Confined p
  | _ => True

end

/-- Whether reduction of a sequence gets by with so many levels, as far as its shape shows. -/
def Within : Nat → List Token → Prop
  | 0, tokens => needsReduction tokens = false
  | levels + 1, tokens => needsReduction tokens → ∀ t ∈ tokens, t.Confined (Within levels)

section Shape

variable {p q : List Token → Prop}

mutual

theorem Token.Confined.mono (hpq : ∀ tokens, p tokens → q tokens) :
    {t : Token} → t.Confined p → t.Confined q
  | .call _ _, h => by
    simp only [Token.Confined] at h ⊢
    exact fun slot hslot => hpq slot (h slot hslot)
  | .group inner, h => by
    simp only [Token.Confined] at h ⊢
    exact ⟨hpq inner h.1, AloneConfined.mono hpq h.2⟩
  | .conditional whenTrue whenFalse, h => by
    simp only [Token.Confined] at h ⊢
    exact ⟨fun hlong => hpq whenTrue (h.1 hlong), AloneConfined.mono hpq h.2.1,
      fun hlong => hpq whenFalse (h.2.2.1 hlong), AloneConfined.mono hpq h.2.2.2⟩
  | .undefined, _ | .number _, _ | .text _, _ | .operator _, _ | .name _, _ => by
    simp only [Token.Confined]

theorem AloneConfined.mono (hpq : ∀ tokens, p tokens → q tokens) :
    {tokens : List Token} → AloneConfined p tokens → AloneConfined q tokens
  | [], _ | _ :: _ :: _, _ => by simp only [AloneConfined]
  | [t], h => by
    simp only [AloneConfined] at h ⊢
    exact Token.Confined.mono hpq h

end

theorem confined_of_isValue {t : Token} (h : t.isValue) : t.Confined p := by
  obtain rfl | ⟨_, rfl⟩ | ⟨_, rfl⟩ := value_cases h <;> simp only [Token.Confined]

theorem aloneConfined_of_forall {tokens : List Token} (h : ∀ t ∈ tokens, t.Confined p) :
    AloneConfined p tokens := by
  match tokens with
  | [] | _ :: _ :: _ => simp only [AloneConfined]
  | [t] =>
    simp only [AloneConfined]
    exact h t (List.mem_singleton_self t)

end Shape

theorem Within.succ {levels : Nat} {tokens : List Token} (h : Within levels tokens) :
    Within (levels + 1) tokens := by
  induction levels generalizing tokens with
  | zero =>
    intro hn
    rw [show needsReduction tokens = false from h] at hn
    exact Bool.noConfusion hn
  | succ levels ih => exact fun hn t ht => (h hn t ht).mono fun _ => ih

/-! Reduction keeps to the shape. -/

/-- What settles nested sequences that fit comes to an end, with tokens that fit in turn. -/
structure Settle.Confines (levels : Nat) (settle : Settle) : Prop where
  confined : ∀ place inner, Within levels inner → AloneConfined (Within levels) inner →
    ∀ t ∈ (settle place inner).result, t.Confined (Within levels)
  done : ∀ place inner, needsReduction (settle place inner).result = false

section Steps

variable {scope : Scope} {settle : Settle} {levels : Nat} (hs : settle.Confines levels)

include hs

theorem Settle.Confines.resolveBranch (branch : Branch) {tokens : List Token}
    (hlong : 1 < tokens.length → Within levels tokens)
    (halone : AloneConfined (Within levels) tokens) :
    let reduced := (resolveBranch settle branch tokens).result.1
    (1 < reduced.length → Within levels reduced) ∧ AloneConfined (Within levels) reduced := by
  match tokens with
  | [] =>
    rw [result_resolveBranch_nil]
    simp [AloneConfined, Token.Confined]
  | [t] =>
    rw [resolveBranch_of_single rfl]
    exact ⟨hlong, halone⟩
  | t :: u :: rest =>
    rw [result_resolveBranch_of_long (by simp)]
    dsimp only
    split
    · simp [AloneConfined, Token.Confined]
    · refine ⟨fun h => ?_, aloneConfined_of_forall ?_⟩
      · have hdone := hs.done .branch (t :: u :: rest)
        rw [needsReduction_of_long h] at hdone
        exact Bool.noConfusion hdone
      · exact hs.confined .branch _ (hlong (by simp)) halone

theorem Settle.Confines.rewrites {tokens after : List Token}
    (h : Rewrites scope settle tokens after) (hc : ∀ t ∈ tokens, t.Confined (Within levels)) :
    ∀ t ∈ after, t.Confined (Within levels) := by
  have hreplaced {before rest : List Token} {t u : Token}
      (hc : ∀ t' ∈ before ++ t :: rest, t'.Confined (Within levels))
      (hu : u.Confined (Within levels)) :
      ∀ t' ∈ before ++ u :: rest, t'.Confined (Within levels) := by
    simp only [List.forall_mem_append, List.forall_mem_cons] at hc ⊢
    exact ⟨hc.1, hu, hc.2.2⟩
  cases h with
  | name before s after =>
    exact hreplaced hc (confined_of_isValue (Token.isValue_of_weight (weight_lookup scope.store s)))
  | call before h =>
    exact hreplaced hc (confined_of_isValue (Token.isValue_of_weight (weight_performCall h)))
  | @group before inner after t h ht =>
    have hgroup := hc (.group inner) (by simp)
    simp only [Token.Confined] at hgroup
    exact hreplaced hc (hs.confined _ _ hgroup.1 hgroup.2 t (List.mem_of_getLast? h))
  | groupGone before h =>
    simp only [List.forall_mem_append, List.forall_mem_cons] at hc ⊢
    exact ⟨hc.1, hc.2.2⟩
  | @conditional before whenTrue whenFalse after h =>
    have hconditional := hc (.conditional whenTrue whenFalse) (by simp)
    simp only [Token.Confined] at hconditional
    obtain ⟨hlong, halone, hlong', halone'⟩ := hconditional
    refine hreplaced hc ?_
    simp only [Token.Confined]
    have htrue := hs.resolveBranch .whenTrue hlong halone
    have hfalse := hs.resolveBranch .whenFalse hlong' halone'
    exact ⟨htrue.1, htrue.2, hfalse⟩

theorem Settle.Confines.rewritesTo {tokens after : List Token}
    (h : RewritesTo scope settle tokens after) (hc : ∀ t ∈ tokens, t.Confined (Within levels)) :
    ∀ t ∈ after, t.Confined (Within levels) := by
  induction h with
  | refl => exact hc
  | tail _ hr ih => exact hs.rewrites hr ih

theorem Settle.Confines.stepWith {tokens after : List Token}
    (h : (stepWith scope settle tokens).run.result = .ok (.progressed after))
    (hc : ∀ t ∈ tokens, t.Confined (Within levels)) :
    ∀ t ∈ after, t.Confined (Within levels) := by
  rcases stepWith_cases h with ⟨after', he, hr⟩ | ⟨hsettled, ha⟩
  · obtain rfl := Step.progressed.inj he
    exact hs.rewritesTo hr.to_reflTransGen hc
  · intro t ht
    rcases mem_of_applyFirst ha.symm ht with hv | hm | ⟨_, whenTrue, whenFalse, _, hsplit, hhead⟩
    · exact confined_of_isValue hv
    · exact hc t hm
    · obtain ⟨htrue, hfalse⟩ := hsettled.single _ _ _ _ hsplit
      have hconditional := hc (.conditional whenTrue whenFalse) (by
        rw [(splitFirst_eq_some hsplit).1]
        simp)
      simp only [Token.Confined] at hconditional
      have hsingle {branch : List Token} (hlength : branch.length = 1) (hhead : branch.head? = some t)
          (halone : AloneConfined (Within levels) branch) : t.Confined (Within levels) := by
        obtain ⟨u, rfl⟩ := List.length_eq_one_iff.mp hlength
        simp only [AloneConfined] at halone
        rwa [Option.some.inj hhead] at halone
      rcases hhead with hhead | hhead
      · exact hsingle htrue hhead hconditional.2.1
      · exact hsingle hfalse hhead hconditional.2.2.2

/-- The sequences that a step reduces inside its own fit the levels below. -/
theorem Settle.Confines.delegates {tokens inner : List Token} {place : Place}
    (h : Delegates scope settle tokens place inner)
    (hc : ∀ t ∈ tokens, t.Confined (Within levels)) : Within levels inner := by
  cases h with
  | argument hsplit _ _ hslot =>
    have hnamed := hs.rewritesTo (rewritesTo_resolveNames scope settle tokens) hc
    rw [(splitFirst_eq_some hsplit).1] at hnamed
    have hcall := hnamed _ (List.mem_append_right _ (List.mem_cons_self ..))
    simp only [Token.Confined] at hcall
    exact hcall inner hslot
  | parentheses hcall hsplit =>
    have hcalled := hs.rewritesTo hcall.rewritesTo hc
    rw [(splitFirst_eq_some hsplit).1] at hcalled
    have hgroup := hcalled _ (List.mem_append_right _ (List.mem_cons_self ..))
    simp only [Token.Confined] at hgroup
    exact hgroup.1
  | branch hcall hsplit hbranch hlong =>
    have hgrouped := hs.rewritesTo (hcall.rewritesTo.trans (rewritesTo_grouped scope settle _)) hc
    rw [(splitFirst_eq_some hsplit).1] at hgrouped
    have hconditional := hgrouped _ (List.mem_append_right _ (List.mem_cons_self ..))
    simp only [Token.Confined] at hconditional
    rcases hbranch with rfl | rfl
    · exact hconditional.1 hlong
    · exact hconditional.2.2.1 hlong

end Steps

/-- What a step keeps, and holds of the null that a failure leaves, holds of what is settled. -/
theorem settleWith_keeps {step : List Token → Attempt Step} {p : List Token → Prop}
    (hstep : ∀ tokens after, (step tokens).run.result = .ok (.progressed after) → p tokens → p after)
    (hnull : p [.undefined]) (place : Place) (fuel : Nat) {tokens : List Token} (h : p tokens) :
    p (settleWith step place fuel tokens).result := by
  induction fuel generalizing tokens with
  | zero => exact h
  | succ fuel ih =>
    simp only [settleWith]
    split
    · simp only [Reported.result_bind]
      split
      · rename_i after ha
        exact ih (hstep tokens after ha h)
      · exact hnull
      · exact hnull
    · exact h

theorem settleAt_of_done {scope : Scope} {limit levels : Nat} (place : Place) {tokens : List Token}
    (hn : needsReduction tokens = false) : settleAt scope limit levels place tokens = pure tokens := by
  unfold settleAt
  cases sequenceWeight tokens with
  | zero => rfl
  | succ fuel => simp [settleWith, hn]

theorem confines_settleAt (scope : Scope) (limit levels : Nat) :
    (settleAt scope limit levels).Confines levels := by
  have hsettled (levels : Nat) (place : Place) (inner : List Token) :
      needsReduction (settleAt scope limit levels place inner).result = false :=
    needsReduction_settleWith (fun _ _ => weight_lt_of_reduce) place (Nat.le_refl _)
  have hunchanged {levels : Nat} (place : Place) {inner : List Token}
      (hn : needsReduction inner = false) (halone : AloneConfined (Within levels) inner) :
      ∀ t ∈ (settleAt scope limit levels place inner).result, t.Confined (Within levels) := by
    rw [settleAt_of_done place hn]
    match inner with
    | [] => exact fun t ht => nomatch ht
    | [u] =>
      simp only [AloneConfined] at halone
      exact List.forall_mem_singleton.mpr halone
    | _ :: _ :: _ =>
      rw [needsReduction_of_long (by simp)] at hn
      exact Bool.noConfusion hn
  induction levels with
  | zero => exact ⟨fun place _ h halone => hunchanged place h halone, hsettled 0⟩
  | succ levels ih =>
    refine ⟨fun place inner h halone => ?_, hsettled (levels + 1)⟩
    cases hn : needsReduction inner with
    | false => exact hunchanged place hn halone
    | true =>
      have hkept : ∀ t ∈ (settleAt scope limit (levels + 1) place inner).result,
          t.Confined (Within levels) :=
        settleWith_keeps (p := fun tokens => ∀ t ∈ tokens, t.Confined (Within levels))
          (fun _ _ ha => ih.stepWith ha) (by simp [Token.Confined]) place _ (h hn)
      exact fun t ht => (hkept t ht).mono fun _ => Within.succ

/-- A sequence that fits its levels does not meet the limit, whatever the tables. -/
theorem not_meetsLimit_of_within {scope : Scope} {limit levels : Nat} {tokens : List Token}
    (h : Within levels tokens) : ¬MeetsLimit scope limit levels tokens := by
  intro hm
  induction hm with
  | here hn => exact absurd (h.symm.trans hn) Bool.false_ne_true
  | inside hn hdelegates _ ih =>
    exact ih ((confines_settleAt scope limit _).delegates hdelegates (h hn))
  | @later levels tokens after hn ha _ ih =>
    refine ih ?_
    cases levels with
    | zero => exact absurd (h.symm.trans hn) Bool.false_ne_true
    | succ levels => exact fun _ => (confines_settleAt scope limit levels).stepWith ha (h hn)

end Reckon
