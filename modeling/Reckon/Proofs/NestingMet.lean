import Reckon.Proofs.NestingLevels

/-!
Sequences that meet the limit of nesting because of a call or a group in them.

A step leaves every call and group as it is that is not the first one. So each of them comes to be
performed or reduced, unless a function fails before. A conditional gives no such certainty, since what
is in its branches may never be reached.
-/

namespace Reckon

/-! What stays in a step. -/

section Stays

variable {scope : Scope} {settle : Settle} {tokens after : List Token} {t : Token}

theorem mem_of_splitFirst {p : Token → Bool} {before after : List Token} {found : Token}
    (h : splitFirst p tokens = some (before, found, after)) (ht : t ∈ tokens) :
    t = found ∨ t ∈ before ∨ t ∈ after := by
  rw [(splitFirst_eq_some h).1, List.mem_append, List.mem_cons] at ht
  tauto

theorem mem_resolveNames (store : Table Value) (hname : t.isName = false) (ht : t ∈ tokens) :
    t ∈ (resolveNames store tokens).result := by
  induction tokens with
  | nil => cases ht
  | cons u rest ih =>
    rcases List.mem_cons.mp ht with rfl | hrest
    · cases t with
      | name _ => exact Bool.noConfusion hname
      | undefined | number _ | text _ | operator _ | call _ _ | group _ | conditional _ _ =>
        exact List.mem_cons_self ..
    · cases u with
      | undefined | number _ | text _ | operator _ | name _ | call _ _ | group _
      | conditional _ _ => exact List.mem_cons_of_mem _ (ih hrest)

theorem mem_resolveCall {outcome : Option (List Token)}
    (h : (resolveCall scope settle tokens).run.result = .ok outcome) (ht : t ∈ tokens) :
    t ∈ outcome.getD tokens ∨ ∃ before after, splitFirst isCall tokens = some (before, t, after) := by
  unfold resolveCall at h
  split at h
  · rename_i before s arguments after hsplit
    rcases mem_of_splitFirst hsplit ht with rfl | hrest
    · exact .inr ⟨before, after, hsplit⟩
    · simp only [ExceptT.run_bind, Reported.result_bind] at h
      split at h
      · obtain rfl := (Except.ok.inj h).symm
        simp only [Option.getD_some, List.mem_append, List.mem_cons]
        tauto
      · simp at h
  · obtain rfl := (Except.ok.inj h).symm
    exact .inl ht

theorem mem_resolveGroup (settle : Settle) (ht : t ∈ tokens) :
    t ∈ grouped settle tokens ∨
      ∃ before after, splitFirst isGroup tokens = some (before, t, after) := by
  unfold grouped resolveGroup
  split
  · rename_i before inner after hsplit
    rcases mem_of_splitFirst hsplit ht with rfl | hrest
    · exact .inr ⟨before, after, hsplit⟩
    · left
      simp only [Reported.result_bind]
      split <;> simp <;> tauto
  · exact .inl ht

theorem mem_resolveConditional (settle : Settle) (hcond : isConditional t = false)
    (ht : t ∈ tokens) : t ∈ (resolveConditional settle tokens).result.getD tokens := by
  unfold resolveConditional
  split
  · rename_i before whenTrue whenFalse after hsplit
    rcases mem_of_splitFirst hsplit ht with rfl | hrest
    · exact Bool.noConfusion hcond
    · simp only [Reported.result_bind]
      split
      · simp only [Reported.result_pure, Option.getD_some, List.mem_append, List.mem_cons]
        tauto
      · exact ht
  · exact ht

end Stays

/-! Calls and groups that lead to the limit. -/

/-- The sequences that are reduced when a call is performed or a group reduced. -/
inductive Token.Leads (scope : Scope) : Token → List Token → Prop where
  | call {s : String} {arguments slot : List Token} {function : Function} :
      s.isEmpty = false → scope.functions.get? s = some function →
      slot ∈ splitArguments arguments → Token.Leads scope (.call s arguments) slot
  | group (inner : List Token) : Token.Leads scope (.group inner) inner

theorem Token.Leads.needsReduction {scope : Scope} {tokens inner : List Token} {t : Token}
    (h : t.Leads scope inner) (ht : t ∈ tokens) : needsReduction tokens := by
  match tokens with
  | [u] =>
    obtain rfl := List.mem_singleton.mp ht
    cases h with
    | call _ _ _ | group _ => rfl
  | _ :: _ :: _ => exact needsReduction_of_long (by simp)

/-- A token that reduction gets to whatever comes before: no conditional, and if it is a call, one of a
function that is there. -/
def Token.Certain (scope : Scope) : Token → Prop
  | .conditional _ _ => False
  | .call s _ => s.isEmpty = false ∧ ∃ function, scope.functions.get? s = some function
  | _ => True

theorem aloneConfined_of_within {scope : Scope} {levels : Nat} {inside : Bool} {tokens : List Token}
    (h : AllEvery (fun _ t => t.Certain scope) inside tokens) (hw : Within levels tokens) :
    AloneConfined (Within levels) tokens := by
  match tokens with
  | [] | _ :: _ :: _ => simp only [AloneConfined]
  | [t] =>
    simp only [AloneConfined]
    cases hn : needsReduction [t] with
    | true =>
      cases levels with
      | zero => exact absurd (hw.symm.trans hn) Bool.false_ne_true
      | succ levels => exact (hw hn t (List.mem_singleton_self t)).mono fun _ => Within.succ
    | false =>
      cases t with
      | name _ | call _ _ | group _ => exact Bool.noConfusion hn
      | conditional _ _ =>
        simp only [AllEvery, Token.Every] at h
        exact h.1.1.elim
      | undefined | number _ | text _ | operator _ => simp only [Token.Confined]

variable {scope : Scope} (hquiet : ∀ failure, ¬scope.Fails failure)

include hquiet

theorem progressed_of_quiet (limit levels : Nat) {tokens : List Token}
    (hn : needsReduction tokens) :
    ∃ after, (reduce scope limit (levels + 1) tokens).run.result = .ok (.progressed after) := by
  cases ha : (reduce scope limit (levels + 1) tokens).run.result with
  | error failure =>
    obtain ⟨-, _, _, -, -, hcall⟩ := performCall_of_stepWith ha
    exact (hquiet failure (fails_of_performCall hcall)).elim
  | ok step =>
    cases step with
    | stalled => exact absurd ha (reduce_ne_stalled scope limit _ hn)
    | progressed after => exact ⟨after, rfl⟩

/-- A sequence meets the limit if a call or a group in it leads to one that does. -/
theorem meetsLimit_of_leads {limit levels : Nat} {tokens inner : List Token} {t : Token}
    (ht : t ∈ tokens) (hleads : t.Leads scope inner) (h : MeetsLimit scope limit levels inner) :
    MeetsLimit scope limit (levels + 1) tokens := by
  induction hw : sequenceWeight tokens using Nat.strong_induction_on generalizing tokens with
  | _ weight ih =>
    have hn := hleads.needsReduction ht
    obtain ⟨after, ha⟩ := progressed_of_quiet hquiet limit levels hn
    have hlater (hmem : t ∈ after) : MeetsLimit scope limit (levels + 1) tokens :=
      .later hn ha (ih _ (hw ▸ weight_lt_of_reduce ha) hmem rfl)
    rcases afterCall_of_stepWith ha with ⟨called, ⟨outcome, hcall, rfl⟩, rfl⟩ | ⟨hsettled, -⟩
    · have hnamed : t ∈ (resolveNames scope.store tokens).result :=
        mem_resolveNames scope.store (by cases hleads <;> rfl) ht
      rcases mem_resolveCall hcall hnamed with hcalled | ⟨before, rest, hsplit⟩
      · rcases mem_resolveGroup (settleAt scope limit levels) hcalled with hmem | ⟨before, rest, hsplit⟩
        · exact hlater (mem_resolveConditional _ (by cases hleads <;> rfl) hmem)
        · cases hleads with
          | call _ _ _ => exact Bool.noConfusion (splitFirst_eq_some hsplit).2.1
          | group => exact .inside hn (.parentheses ⟨outcome, hcall, rfl⟩ hsplit) h
      · cases hleads with
        | call hs hf hslot => exact .inside hn (.argument hsplit hs hf hslot) h
        | group => exact Bool.noConfusion (splitFirst_eq_some hsplit).2.1
    · have hplain := hsettled.plain t ht
      cases hleads with
      | call _ _ _ | group => exact Bool.noConfusion hplain

/-- Where every token is certain, a sequence that does not fit its levels meets the limit. -/
theorem meetsLimit_of_not_within {limit levels : Nat} {inside : Bool} {tokens : List Token}
    (h : AllEvery (fun _ t => t.Certain scope) inside tokens) (hw : ¬Within levels tokens) :
    MeetsLimit scope limit levels tokens := by
  induction levels generalizing inside tokens with
  | zero => exact .here (by simpa [Within] using hw)
  | succ levels ih =>
    simp only [Within, not_forall] at hw
    obtain ⟨-, t, ht, hconfined⟩ := hw
    have hevery := allEvery_iff.mp h t ht
    cases t with
    | call s arguments =>
      simp only [Token.Every, Token.Confined, not_forall] at hevery hconfined
      obtain ⟨⟨hs, function, hf⟩, harguments⟩ := hevery
      obtain ⟨slot, hslot, hdeep⟩ := hconfined
      have hevery_slot : AllEvery (fun _ t => t.Certain scope) true slot :=
        allEvery_iff.mpr fun u hu => allEvery_iff.mp harguments u (mem_splitArguments hslot hu).1
      exact meetsLimit_of_leads hquiet ht (.call hs hf hslot) (ih hevery_slot hdeep)
    | group inner =>
      simp only [Token.Every, Token.Confined] at hevery hconfined
      refine meetsLimit_of_leads hquiet ht (.group inner) (ih hevery.2 fun hinner => ?_)
      exact hconfined ⟨hinner, aloneConfined_of_within hevery.2 hinner⟩
    | conditional _ _ =>
      simp only [Token.Every] at hevery
      exact hevery.1.elim
    | undefined | number _ | text _ | operator _ | name _ => simp [Token.Confined] at hconfined

end Reckon
