import Reckon.Proofs.ReductionSteps

/-!
Every step of reduction lessens the weight of its sequence.

The length of a sequence is no such measure: a name is replaced in place, an empty branch grows, and a
branch that is chosen brings in a token with sequences of its own. The weight counts every token at
every level, an operator or a name for more than a value, and an empty branch for more than a null.
-/

namespace Reckon

@[simp] theorem sequenceWeight_nil : sequenceWeight [] = 0 := rfl

@[simp] theorem sequenceWeight_cons (t : Token) (rest : List Token) :
    sequenceWeight (t :: rest) = t.weight + sequenceWeight rest := rfl

@[simp] theorem sequenceWeight_append (as bs : List Token) :
    sequenceWeight (as ++ bs) = sequenceWeight as + sequenceWeight bs := by
  induction as with
  | nil => simp
  | cons a as ih => simp [ih, Nat.add_assoc]

namespace Token

@[simp] theorem weight_operator (op : Operator) : (operator op).weight = 2 := rfl

@[simp] theorem weight_number (n : Float) : (number n).weight = 1 := rfl

@[simp] theorem weight_undefined : undefined.weight = 1 := rfl

theorem weight_pos (t : Token) : 0 < t.weight := by
  cases t <;> simp only [weight] <;> omega

@[simp] theorem weight_ofValue (v : Value) : (ofValue v).weight = 1 := by
  cases v <;> rfl

end Token

theorem branchWeight_of_pos {weight : Nat} (h : 0 < weight) : branchWeight weight = weight :=
  if_neg (Nat.ne_of_gt h)

theorem weight_le_of_mem {t : Token} {tokens : List Token} (h : t ∈ tokens) :
    t.weight ≤ sequenceWeight tokens := by
  induction tokens with
  | nil => simp at h
  | cons s rest ih =>
    simp only [sequenceWeight_cons]
    rcases List.mem_cons.mp h with rfl | h
    · exact Nat.le_add_right _ _
    · exact Nat.le_trans (ih h) (Nat.le_add_left _ _)

theorem length_le_sequenceWeight (tokens : List Token) : tokens.length ≤ sequenceWeight tokens := by
  induction tokens with
  | nil => simp
  | cons t rest ih =>
    have := t.weight_pos
    simp only [List.length_cons, sequenceWeight_cons]
    omega

theorem two_le_sequenceWeight {tokens : List Token} (h : needsReduction tokens) :
    2 ≤ sequenceWeight tokens := by
  match tokens with
  | [] => simp [needsReduction] at h
  | [t] =>
    cases t with
    | undefined | number _ | text _ | conditional _ _ => simp [needsReduction] at h
    | operator _ | name _ => simp [Token.weight]
    | call _ _ | group _ => simp [Token.weight]
  | a :: b :: rest =>
    have := length_le_sequenceWeight (a :: b :: rest)
    simp only [List.length_cons] at this
    omega

/-! The tokens that a step brings in. -/

@[simp] theorem weight_lookup (store : Table Value) (s : String) :
    (lookup store s).result.weight = 1 := by
  unfold lookup
  split
  · rfl
  · simp
  · split <;> rfl

theorem weight_performCall {scope : Scope} {settle : Settle} {s : String}
    {arguments : List Token} {t : Token}
    (h : (performCall scope settle s arguments).run.result = .ok t) : t.weight = 1 := by
  rw [result_performCall] at h
  split at h
  · exact Except.ok.inj h ▸ rfl
  · split at h
    · exact Except.ok.inj h ▸ rfl
    · rename_i function _
      cases hf : function (argumentValues settle (splitArguments arguments)).result with
      | ok v =>
        rw [hf] at h
        exact Except.ok.inj h ▸ Token.weight_ofValue v
      | error failure => simp [hf, Except.map] at h

theorem weight_divide (a b : Float) : (divide a b).result.weight = 1 := by
  unfold divide
  split
  · rfl
  · split
    · rfl
    · simp only
      split
      · rfl
      · split <;> rfl

theorem weight_modulo (a b : Float) : (modulo a b).result.weight = 1 := by
  unfold modulo
  split
  · rfl
  · simp only
    split <;> rfl

theorem weight_applyBinary (op : Operator) (lhs rhs : Token) :
    (applyBinary op lhs rhs).result.weight = 1 := by
  cases op with
  | div => exact weight_divide _ _
  | mod => exact weight_modulo _ _
  | add =>
    simp only [applyBinary]
    split <;> rfl
  | eq | ne | lt | le | gt | ge =>
    simp only [applyBinary, Operator.textCounterpart?]
    split <;> rfl
  | or | and | not | notNot | sub | cat | mul | pow | textEq | textNe | textLt | textLe | textGt
  | textGe | set | comma => rfl

/-! Folding signs and combining operands. -/

theorem isScalar_logicalNot (op : Operator) (t : Token) : (logicalNot op t).isScalar := by
  unfold logicalNot
  split <;> rfl

/-- Folding takes away some operators at the start and leaves a scalar for the one after them. -/
theorem foldSign_cases {tokens folded : List Token} (h : foldSign tokens = some folded) :
    ∃ signs operand signed rest, signs ≠ [] ∧ tokens = signs ++ operand :: rest ∧
      folded = signed :: rest ∧ operand.isScalar ∧ signed.isScalar := by
  unfold foldSign at h
  split at h
  · rename_i more
    simp only at h
    split at h
    · rename_i operand rest hd
      split at h
      · rename_i hs
        refine ⟨(Token.operator .sub :: more).takeWhile (Token.isOperator .sub), operand, _, rest,
          ?_, ?_, (Option.some.inj h).symm, hs, ?_⟩
        · simp [Token.isOperator]
        · rw [← hd, List.takeWhile_append_dropWhile]
        · split
          · rfl
          · exact hs
      · simp at h
    · simp at h
  · rename_i op next rest _
    split at h
    · split at h
      · rename_i hs
        exact ⟨[.operator op], next, _, rest, by simp, rfl, (Option.some.inj h).symm, hs,
          isScalar_logicalNot op next⟩
      · split at h
        · rename_i operand more _
          split at h
          · rename_i hs
            exact ⟨[.operator op, .operator .sub], operand, _, more, by simp, rfl,
              (Option.some.inj h).symm, hs, isScalar_logicalNot op _⟩
          · simp at h
        · simp at h
    · simp at h
  · simp at h

theorem Token.weight_of_isScalar {t : Token} (h : t.isScalar) : t.weight = 1 := by
  cases t with
  | number _ | text _ => rfl
  | undefined | operator _ | name _ | call _ _ | group _ | conditional _ _ => simp [isScalar] at h

theorem Token.isValue_of_isScalar {t : Token} (h : t.isScalar) : t.isValue := by
  cases t with
  | number _ | text _ => rfl
  | undefined | operator _ | name _ | call _ _ | group _ | conditional _ _ => simp [isScalar] at h

theorem Token.isValue_of_weight {t : Token} (h : t.weight = 1) : t.isValue := by
  cases t with
  | undefined | number _ | text _ => rfl
  | operator _ | name _ | call _ _ | group _ | conditional _ _ => simp [weight] at h <;> omega

theorem isValue_applyBinary (op : Operator) (lhs rhs : Token) :
    (applyBinary op lhs rhs).result.isValue :=
  Token.isValue_of_weight (weight_applyBinary op lhs rhs)

theorem weight_lt_of_foldSign {tokens folded : List Token} (h : foldSign tokens = some folded) :
    sequenceWeight folded < sequenceWeight tokens := by
  obtain ⟨signs, operand, signed, rest, hne, rfl, rfl, ho, hs⟩ := foldSign_cases h
  have hl := length_le_sequenceWeight signs
  have hp := List.length_pos_iff.mpr hne
  simp only [sequenceWeight_append, sequenceWeight_cons, Token.weight_of_isScalar ho,
    Token.weight_of_isScalar hs]
  omega

theorem weight_mergeAdjacent_lt (first second : Token) :
    (mergeAdjacent first second).result.weight < first.weight + second.weight := by
  have h₁ := first.weight_pos
  have h₂ := second.weight_pos
  unfold mergeAdjacent
  split
  · split <;> simp [Token.weight]
  · split <;> simp [Token.weight]
  all_goals simp [Token.weight] <;> omega

theorem weight_chooseBranch_lt (condition : Token) (whenTrue whenFalse : List Token) :
    (chooseBranch condition whenTrue whenFalse).weight <
      (Token.conditional whenTrue whenFalse).weight := by
  have hb (branch : List Token) :
      (branch.head?.getD .undefined).weight ≤ branchWeight (sequenceWeight branch) := by
    cases branch with
    | nil => simp [branchWeight]
    | cons t rest =>
      have := t.weight_pos
      rw [sequenceWeight_cons, branchWeight_of_pos (by omega)]
      exact Nat.le_add_right _ _
  have := hb whenTrue
  have := hb whenFalse
  simp only [chooseBranch, Token.weight]
  split <;> omega

theorem weight_applyOperator_lt (lhs : Token) (op : Operator) (rest : List Token) :
    sequenceWeight (applyOperator lhs op rest).result <
      sequenceWeight (lhs :: .operator op :: rest) := by
  have hl := lhs.weight_pos
  cases rest with
  | nil => simp [applyOperator]
  | cons t more =>
    have hf : sequenceWeight ((foldSign (t :: more)).getD (t :: more)) ≤
        sequenceWeight (t :: more) := by
      cases hs : foldSign (t :: more) with
      | none => exact Nat.le_refl _
      | some folded => exact Nat.le_of_lt (weight_lt_of_foldSign hs)
    simp only [applyOperator]
    split
    · split
      · rename_i folded hs
        have := weight_lt_of_foldSign hs
        simpa using this
      · simp
    · split
      · rename_i folded hs
        have := weight_lt_of_foldSign hs
        simpa using this
      · simp
    · simp
    · simp
    · split
      · rename_i found rest' hr
        simp only [hr, sequenceWeight_cons, Token.weight_operator] at hf
        simp only [Reported.result_bind, Reported.result_pure, sequenceWeight_cons,
          Token.weight_operator]
        omega
      · rename_i rhs rest' _ hr
        have hp := rhs.weight_pos
        simp only [hr, sequenceWeight_cons] at hf
        simp only [Reported.result_bind, Reported.result_pure, sequenceWeight_cons,
          weight_applyBinary, Token.weight_operator]
        omega
      · simp only [Reported.result_pure, sequenceWeight_cons, sequenceWeight_nil,
          Token.weight_operator]
        omega

theorem weight_lt_of_applyFirst {tokens after : List Token}
    (h : (applyFirst tokens).result = .progressed after) :
    sequenceWeight after < sequenceWeight tokens := by
  unfold applyFirst at h
  split at h
  · simp at h
  · rename_i op rest
    split at h
    · obtain rfl := Step.progressed.inj h
      simp only [sequenceWeight_cons, sequenceWeight_nil, Token.weight_number,
        Token.weight_operator]
      omega
    · split at h
      · rename_i folded hf
        obtain rfl := Step.progressed.inj h
        split at hf
        · exact weight_lt_of_foldSign hf
        · simp at hf
      · obtain rfl := Step.progressed.inj h
        simp
  · obtain rfl := Step.progressed.inj h
    simp [Token.weight_pos]
  · simp at h
  · rename_i first whenTrue whenFalse rest _ _
    obtain rfl := Step.progressed.inj h
    have := weight_chooseBranch_lt first whenTrue whenFalse
    simp only [sequenceWeight_cons]
    omega
  · rename_i first op rest _ _
    obtain rfl := Step.progressed.inj h
    exact weight_applyOperator_lt first op rest
  · rename_i first second rest _ _ _ _
    obtain rfl := Step.progressed.inj h
    have := weight_mergeAdjacent_lt first second
    simp only [sequenceWeight_cons]
    omega

/-! Nested sequences. -/

/-- What reduces nested sequences adds no weight, and takes some off those that need reduction. -/
structure Lessens (settle : Settle) : Prop where
  le : ∀ place tokens, sequenceWeight (settle place tokens).result ≤ sequenceWeight tokens
  lt : ∀ place tokens, needsReduction tokens →
    sequenceWeight (settle place tokens).result < sequenceWeight tokens

theorem needsReduction_of_long {tokens : List Token} (h : 1 < tokens.length) :
    needsReduction tokens := by
  match tokens with
  | [] | [_] => simp at h
  | _ :: _ :: _ => simp [needsReduction]

variable {scope : Scope} {settle : Settle}

theorem weight_resolveBranch_le (hs : Lessens settle) (branch : Branch) (tokens : List Token) :
    branchWeight (sequenceWeight (resolveBranch settle branch tokens).result.1) ≤
      branchWeight (sequenceWeight tokens) ∧
    (tokens.length ≠ 1 →
      branchWeight (sequenceWeight (resolveBranch settle branch tokens).result.1) <
        branchWeight (sequenceWeight tokens)) := by
  match tokens with
  | [] => simp [result_resolveBranch_nil, branchWeight]
  | [t] => simp [resolveBranch_of_single]
  | a :: b :: rest =>
    have ha := a.weight_pos
    have hb := b.weight_pos
    have hlt := hs.lt .branch (a :: b :: rest) (needsReduction_of_long (by simp))
    simp only [sequenceWeight_cons] at hlt
    suffices h : branchWeight (sequenceWeight
        (resolveBranch settle branch (a :: b :: rest)).result.1) <
        branchWeight (sequenceWeight (a :: b :: rest)) from ⟨Nat.le_of_lt h, fun _ => h⟩
    have hw : 0 < sequenceWeight (a :: b :: rest) := by
      simp only [sequenceWeight_cons]
      omega
    rw [result_resolveBranch_of_long (by simp), branchWeight_of_pos hw]
    simp only [sequenceWeight_cons]
    split
    · rw [sequenceWeight_cons, branchWeight_of_pos (by simp), sequenceWeight_nil,
        Token.weight_undefined]
      omega
    · rename_i hne
      have := length_le_sequenceWeight (settle .branch (a :: b :: rest)).result
      have := List.length_pos_iff.mpr hne
      rw [branchWeight_of_pos (by omega)]
      exact hlt

theorem weight_lt_of_rewrites (hs : Lessens settle) {tokens after : List Token}
    (h : Rewrites scope settle tokens after) : sequenceWeight after < sequenceWeight tokens := by
  cases h with
  | name before s after => simp [Token.weight]
  | call before h => simp [Token.weight, weight_performCall h]; omega
  | @group before inner after t h ht =>
    have hle := hs.le .parentheses inner
    have := weight_le_of_mem (List.mem_of_getLast? h)
    simp only [sequenceWeight_append, sequenceWeight_cons, Token.weight]
    omega
  | groupGone before h => simp [Token.weight_pos]
  | @conditional before whenTrue whenFalse after h =>
    obtain ⟨hle₁, hlt₁⟩ := weight_resolveBranch_le hs .whenTrue whenTrue
    obtain ⟨hle₂, hlt₂⟩ := weight_resolveBranch_le hs .whenFalse whenFalse
    simp only [sequenceWeight_append, sequenceWeight_cons, Token.weight]
    by_cases h₁ : whenTrue.length = 1
    · have := hlt₂ fun h₂ => h ⟨h₁, h₂⟩
      omega
    · have := hlt₁ h₁
      omega

theorem weight_lt_of_stepWith (hs : Lessens settle) {tokens after : List Token}
    (h : (stepWith scope settle tokens).run.result = .ok (.progressed after)) :
    sequenceWeight after < sequenceWeight tokens := by
  rcases stepWith_cases h with ⟨after', he, hr⟩ | ⟨-, he⟩
  · obtain rfl := Step.progressed.inj he
    clear h he
    induction hr with
    | single hr => exact weight_lt_of_rewrites hs hr
    | tail _ hr ih => exact Nat.lt_trans (weight_lt_of_rewrites hs hr) ih
  · exact weight_lt_of_applyFirst he.symm

/-- Settling lessens the weight if the steps it takes do. -/
theorem weight_settleWith_le {step : List Token → Attempt Step}
    (hs : ∀ tokens after, (step tokens).run.result = .ok (.progressed after) →
      sequenceWeight after < sequenceWeight tokens)
    (place : Place) (fuel : Nat) (tokens : List Token) :
    sequenceWeight (settleWith step place fuel tokens).result ≤ sequenceWeight tokens := by
  induction fuel generalizing tokens with
  | zero => exact Nat.le_refl _
  | succ fuel ih =>
    simp only [settleWith]
    split
    · rename_i hn
      have h₂ := two_le_sequenceWeight hn
      simp only [Reported.result_bind]
      split
      · rename_i after ha
        exact Nat.le_trans (ih after) (Nat.le_of_lt (hs tokens after ha))
      · exact Nat.le_of_succ_le h₂
      · exact Nat.le_of_succ_le h₂
    · exact Nat.le_refl _

theorem weight_settleWith_lt {step : List Token → Attempt Step}
    (hs : ∀ tokens after, (step tokens).run.result = .ok (.progressed after) →
      sequenceWeight after < sequenceWeight tokens)
    (place : Place) {fuel : Nat} (hf : 0 < fuel) {tokens : List Token}
    (hn : needsReduction tokens) :
    sequenceWeight (settleWith step place fuel tokens).result < sequenceWeight tokens := by
  obtain ⟨fuel, rfl⟩ := Nat.exists_eq_add_one.mpr hf
  have h₂ := two_le_sequenceWeight hn
  simp only [settleWith, hn, if_true, Reported.result_bind]
  split
  · rename_i after ha
    exact Nat.lt_of_le_of_lt (weight_settleWith_le hs place fuel after) (hs tokens after ha)
  · exact h₂
  · exact h₂

/-- The sequence that a step leaves weighs less, at every depth. -/
theorem weight_lt_of_reduce {limit levels : Nat} {tokens after : List Token}
    (h : (reduce scope limit levels tokens).run.result = .ok (.progressed after)) :
    sequenceWeight after < sequenceWeight tokens := by
  induction levels generalizing tokens after with
  | zero => simp [reduce] at h
  | succ levels ih =>
    refine weight_lt_of_stepWith ⟨?_, ?_⟩ h
    · exact fun place inner => weight_settleWith_le (fun _ _ => ih) place _ inner
    · intro place inner hn
      have := two_le_sequenceWeight hn
      exact weight_settleWith_lt (fun _ _ => ih) place (by omega) hn

end Reckon
