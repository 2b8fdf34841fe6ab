import Reckon.Proofs.ReductionWeight
import Reckon.Proofs.TokenTree

/-!
The tokens of what a step leaves.

Rewrites say where the tokens come from that they leave. When the first operand is combined, each token
left is a new value, was there before or is the first one of a branch. The arguments of a call are its
tokens without the separators.
-/

namespace Reckon

theorem mem_of_foldSign {tokens folded : List Token} (h : foldSign tokens = some folded) {t : Token}
    (ht : t ∈ folded) : t.isValue ∨ t ∈ tokens := by
  obtain ⟨signs, operand, signed, rest, -, rfl, rfl, -, hs⟩ := foldSign_cases h
  rcases List.mem_cons.mp ht with rfl | ht
  · exact .inl (Token.isValue_of_isScalar hs)
  · exact .inr (List.mem_append_right signs (List.mem_cons_of_mem operand ht))

theorem mergeAdjacent_cases (first second : Token) :
    (mergeAdjacent first second).result.isValue ∨
      (mergeAdjacent first second).result = first ∨ (mergeAdjacent first second).result = second := by
  unfold mergeAdjacent
  split
  · split <;> exact .inl rfl
  · split <;> exact .inl rfl
  · exact .inl rfl
  · exact .inl rfl
  · exact .inr (.inr rfl)
  · exact .inr (.inl rfl)
  · exact .inr (.inl rfl)

theorem chooseBranch_cases (condition : Token) (whenTrue whenFalse : List Token) :
    chooseBranch condition whenTrue whenFalse = .undefined ∨
      whenTrue.head? = some (chooseBranch condition whenTrue whenFalse) ∨
      whenFalse.head? = some (chooseBranch condition whenTrue whenFalse) := by
  unfold chooseBranch
  split
  · cases whenTrue with
    | nil => exact .inl rfl
    | cons t rest => exact .inr (.inl rfl)
  · cases whenFalse with
    | nil => exact .inl rfl
    | cons t rest => exact .inr (.inr rfl)

theorem mem_of_applyOperator {lhs t : Token} {op : Operator} {rest : List Token}
    (ht : t ∈ (applyOperator lhs op rest).result) : t.isValue ∨ t ∈ lhs :: .operator op :: rest := by
  have hkept {op : Operator} {more : List Token} (hm : t ∈ lhs :: more) :
      t ∈ lhs :: .operator op :: more := by
    rcases List.mem_cons.mp hm with rfl | hm
    · exact List.mem_cons_self ..
    · exact List.mem_cons_of_mem _ (List.mem_cons_of_mem _ hm)
  have hfolded (hm : t ∈ (foldSign rest).getD rest) :
      t.isValue ∨ t ∈ lhs :: .operator op :: rest := by
    cases hf : foldSign rest with
    | none =>
      rw [hf] at hm
      exact .inr (hkept (List.mem_cons_of_mem _ hm))
    | some folded =>
      rw [hf] at hm
      exact (mem_of_foldSign hf hm).imp_right fun hm => hkept (List.mem_cons_of_mem _ hm)
  unfold applyOperator at ht
  split at ht
  · exact .inr (hkept ht)
  · rename_i u rest
    split at ht
    · split at ht
      · rename_i folded hf
        rcases List.mem_cons.mp ht with rfl | ht
        · exact .inr (List.mem_cons_self ..)
        · exact (mem_of_foldSign hf ht).imp_right (List.mem_cons_of_mem lhs)
      · exact .inr (hkept ht)
    · split at ht
      · rename_i folded hf
        rcases List.mem_cons.mp ht with rfl | ht
        · exact .inr (List.mem_cons_self ..)
        · exact (mem_of_foldSign hf ht).imp_right (List.mem_cons_of_mem lhs)
      · exact .inr (hkept ht)
    · exact .inr (hkept ht)
    · exact .inr (hkept ht)
    · split at ht
      · rename_i found more he
        rcases List.mem_cons.mp ht with rfl | ht
        · exact .inr (List.mem_cons_self ..)
        · exact hfolded (he ▸ ht)
      · rename_i rhs more _ he
        rcases List.mem_cons.mp ht with rfl | ht
        · exact .inl (isValue_applyBinary _ _ _)
        · exact hfolded (he ▸ List.mem_cons_of_mem rhs ht)
      · exact .inr (List.mem_singleton.mp ht ▸ List.mem_cons_self ..)

theorem mem_of_applyFirst_operator {op : Operator} {rest after : List Token} {t : Token}
    (h : (applyFirst (.operator op :: rest)).result = .progressed after) (ht : t ∈ after) :
    t.isValue ∨ t ∈ Token.operator op :: rest := by
  simp only [applyFirst] at h
  split at h
  · obtain rfl := Step.progressed.inj h
    obtain rfl := List.mem_singleton.mp ht
    exact .inl rfl
  · split at h
    · rename_i folded hf
      obtain rfl := Step.progressed.inj h
      split at hf
      · exact mem_of_foldSign hf ht
      · simp at hf
    · obtain rfl := Step.progressed.inj h
      exact .inr (List.mem_cons_of_mem _ ht)

/-- A token that is left is a value, was there, or is the first one of a branch that was chosen. -/
theorem mem_of_applyFirst {tokens after : List Token} {t : Token}
    (h : (applyFirst tokens).result = .progressed after) (ht : t ∈ after) :
    t.isValue ∨ t ∈ tokens ∨ ∃ before whenTrue whenFalse more,
      splitFirst isConditional tokens = some (before, .conditional whenTrue whenFalse, more) ∧
        (whenTrue.head? = some t ∨ whenFalse.head? = some t) := by
  unfold applyFirst at h
  split at h
  · simp at h
  · rename_i op rest
    exact (mem_of_applyFirst_operator h ht).imp_right .inl
  · obtain rfl := Step.progressed.inj h
    exact .inr (.inl (List.mem_cons_of_mem _ ht))
  · simp at h
  · rename_i first whenTrue whenFalse rest _ hfirst
    obtain rfl := Step.progressed.inj h
    rcases List.mem_cons.mp ht with rfl | ht
    · have hcond : isConditional first = false := by
        cases first with
        | conditional _ _ => exact absurd rfl (hfirst _ _)
        | undefined | number _ | text _ | operator _ | name _ | call _ _ | group _ => rfl
      rcases chooseBranch_cases first whenTrue whenFalse with he | hchosen
      · exact .inl (by rw [he]; rfl)
      · exact .inr (.inr ⟨_, _, _, _, splitFirst_conditional hcond .., hchosen⟩)
    · exact .inr (.inl (List.mem_cons_of_mem _ (List.mem_cons_of_mem _ ht)))
  · obtain rfl := Step.progressed.inj h
    exact (mem_of_applyOperator ht).imp_right .inl
  · rename_i first second rest _ _ _ _
    obtain rfl := Step.progressed.inj h
    rcases List.mem_cons.mp ht with rfl | ht
    · rcases mergeAdjacent_cases first second with hv | he | he
      · exact .inl hv
      · rw [he]
        exact .inr (.inl (List.mem_cons_self ..))
      · rw [he]
        exact .inr (.inl (List.mem_cons_of_mem first (List.mem_cons_self ..)))
    · exact .inr (.inl (List.mem_cons_of_mem _ (List.mem_cons_of_mem _ ht)))

/-! The arguments of a call are split at the separators between them. -/

theorem splitArguments_append_comma {as : List Token} (h : ∀ t ∈ as, t.isOperator .comma = false)
    (bs : List Token) :
    splitArguments (as ++ .operator .comma :: bs) = as :: splitArguments bs := by
  induction as with
  | nil => simp [splitArguments, Token.isOperator]
  | cons a as ih =>
    rw [List.cons_append, splitArguments, h a (by simp), ih fun t ht => h t (by simp [ht])]
    rfl

theorem splitArguments_of_ne_nil {as : List Token} (h : ∀ t ∈ as, t.isOperator .comma = false)
    (hne : as ≠ []) : splitArguments as = [as] := by
  induction as with
  | nil => exact absurd rfl hne
  | cons a as ih =>
    rw [splitArguments, h a (by simp)]
    cases as with
    | nil => rfl
    | cons b bs => rw [ih (fun t ht => h t (by simp [ht])) (by simp)]; rfl

theorem mem_splitArguments {tokens slot : List Token} {t : Token}
    (hslot : slot ∈ splitArguments tokens) (ht : t ∈ slot) :
    t ∈ tokens ∧ t ≠ .operator .comma := by
  induction tokens generalizing slot with
  | nil => simp [splitArguments] at hslot
  | cons u rest ih =>
    rw [splitArguments] at hslot
    split at hslot
    · rcases List.mem_cons.mp hslot with rfl | hmore
      · simp at ht
      · exact (ih hmore ht).imp_left (List.mem_cons_of_mem u)
    · rename_i hu
      have hu' : u ≠ .operator .comma := by
        rintro rfl
        exact hu (isOperator_operator .comma)
      split at hslot
      · rename_i first more hsplit
        rcases List.mem_cons.mp hslot with rfl | hmore
        · rcases List.mem_cons.mp ht with rfl | hfirst
          · exact ⟨List.mem_cons_self .., hu'⟩
          · exact (ih (hsplit ▸ List.mem_cons_self ..) hfirst).imp_left (List.mem_cons_of_mem u)
        · exact (ih (hsplit ▸ List.mem_cons_of_mem first hmore) ht).imp_left
            (List.mem_cons_of_mem u)
      · obtain rfl := List.mem_singleton.mp hslot
        obtain rfl := List.mem_singleton.mp ht
        exact ⟨List.mem_cons_self .., hu'⟩

end Reckon
