import Reckon.Proofs.OperandSigns
import Reckon.Proofs.ReductionProgress

/-!
What a sequence means, read once from left to right.

A token either is an operand, whose outcome stands for it, or tells what is to be done with the next
operand. A group without a value is none: it is passed over, and the operators before it go to what
follows. Where that leaves more operators than an operand can take, the first of them are dropped.
Reduction replaces operands by their outcomes in an order of its own and combines the first two of them
only when there is nothing left to replace; neither changes what the sequence means, so the loop gives
just that. An operator right before a conditional is left out, and so is a group or branch that comes
down to an operator or a conditional.
-/

namespace Reckon

/-- Why nothing is said of what is left of a sequence. -/
inductive Stop where
  /-- A call of it failed. -/
  | failed
  /-- It is none of the sequences that are given a meaning. -/
  | outside
deriving Repr, DecidableEq

/-- What is left of a sequence. -/
inductive Left where
  | nothing
  /-- An operator or a conditional, which is dropped if anything follows. -/
  | stray
  | operand (lhs : Token)
deriving Repr, DecidableEq

def Left.take : Left → List Operator → Token → Token
  | operand lhs, ops, t => nextOperand lhs ops t
  | _, ops, t => firstOperand ops t

/-- How far a sequence has been read: what is left of it so far, and the operators that follow. -/
structure Phase where
  left : Left
  pending : List Operator
deriving Repr

namespace Phase

/-- Before the first token of a sequence. -/
def start : Phase := ⟨.nothing, []⟩

/-- The reading of operators that follow. -/
def after (phase : Phase) (ops : List Operator) : Phase := ⟨phase.left, phase.pending ++ ops⟩

/-- The reading of an operand that follows. -/
def take (phase : Phase) (t : Token) : Phase := ⟨.operand (phase.left.take phase.pending t), []⟩

/-- The reading of what is left of an operand. A group without a value is passed over. -/
def meet (phase : Phase) : Option Token → Phase
  | some t => phase.take t
  | none => phase

/-- The reading of a conditional that follows. The branch that is chosen stands for all that was read.
An operator that waits for its right operand is not given one by a conditional. -/
def choose (phase : Phase) (chosen : Token → Except Stop (Option Token)) : Except Stop Phase :=
  match phase.left with
  | .operand lhs =>
    if phase.pending.getLast?.any Operator.isBinary then .error .outside
    else (chosen lhs).map start.meet
  | _ => .ok ⟨.stray, []⟩

/-- What is left if nothing follows. Operators after an operand are dropped, and of others the last
stays; if it is a minus, it is zero. -/
def finish (phase : Phase) : Left :=
  match phase.left, phase.pending.getLast? with
  | .operand lhs, _ => .operand lhs
  | _, some .sub => .operand (.number 0.0)
  | _, some _ => .stray
  | left, none => left

end Phase

section Meaning

variable (scope : Scope) (settle : Settle)

/-- What reduction puts in the place of an operand, if anything. -/
def atomOutcome : Token → Except Stop (Option Token)
  | .undefined => .ok (some .undefined)
  | .number n => .ok (some (.number n))
  | .text s => .ok (some (.text s))
  | .name s => .ok (some (lookup scope.store s).result)
  | .call s arguments =>
    match (performCall scope settle s arguments).run.result with
    | .ok t => .ok (some t)
    | .error _ => .error .failed
  | .group inner =>
    match lastValue (settle .parentheses inner).result with
    | some t => if t.isScalar then .ok (some t) else .error .outside
    | none => .ok none
  | .operator _ | .conditional _ _ => .error .outside

/-- What is left of a branch that is chosen. -/
def branchOutcome (branch : Branch) (tokens : List Token) : Except Stop (Option Token) :=
  match (resolveBranch settle branch tokens).result.1 with
  | [t] => atomOutcome scope settle t
  | _ => .error .outside

/-- What is left of the branch that a condition chooses. -/
def chosenOutcome (whenTrue whenFalse : List Token) (condition : Token) :
    Except Stop (Option Token) :=
  if condition.toNumber != 0.0 then branchOutcome scope settle .whenTrue whenTrue
  else branchOutcome scope settle .whenFalse whenFalse

/-- The reading of one more token. -/
def advance (phase : Phase) : Token → Except Stop Phase
  | .operator op => .ok (phase.after [op])
  | .conditional whenTrue whenFalse =>
    phase.choose (chosenOutcome scope settle whenTrue whenFalse)
  | t => (atomOutcome scope settle t).map phase.meet

/-- What is left of the rest of a sequence. -/
def meaningFrom : Phase → List Token → Except Stop Left
  | phase, [] => .ok phase.finish
  | phase, t :: rest => do meaningFrom (← advance scope settle phase t) rest

/-- What is left of a sequence. -/
def meaning (tokens : List Token) : Except Stop Left :=
  meaningFrom scope settle .start tokens

end Meaning

variable {scope : Scope} {settle : Settle}

theorem meaningFrom_cons (phase : Phase) (t : Token) (rest : List Token) :
    meaningFrom scope settle phase (t :: rest) =
      (advance scope settle phase t).bind fun phase => meaningFrom scope settle phase rest :=
  rfl

theorem atomOutcome_of_isValue {t : Token} (h : t.isValue) :
    atomOutcome scope settle t = .ok (some t) := by
  obtain rfl | ⟨_, rfl⟩ | ⟨_, rfl⟩ := value_cases h <;> rfl

theorem isValue_of_atomOutcome {t u : Token} (h : atomOutcome scope settle t = .ok (some u)) :
    u.isValue := by
  cases t with
  | undefined | number _ | text _ => exact Option.some.inj (Except.ok.inj h) ▸ rfl
  | name s =>
    exact Option.some.inj (Except.ok.inj h) ▸ Token.isValue_of_weight (weight_lookup scope.store s)
  | call s arguments =>
    simp only [atomOutcome] at h
    split at h
    · rename_i v hc
      exact Option.some.inj (Except.ok.inj h) ▸ Token.isValue_of_weight (weight_performCall hc)
    · simp at h
  | group inner =>
    simp only [atomOutcome] at h
    split at h
    · split at h
      · rename_i hv
        exact Option.some.inj (Except.ok.inj h) ▸ Token.isValue_of_isScalar hv
      · simp at h
    · simp at h
  | operator _ | conditional _ _ => simp [atomOutcome] at h

theorem isOperand_of_atomOutcome {t : Token}
    (h : atomOutcome scope settle t ≠ .error .outside) : t.isOperand := by
  cases t with
  | undefined | number _ | text _ | name _ | call _ _ | group _ => rfl
  | operator _ | conditional _ _ => exact absurd rfl h

theorem advance_of_isOperand {t : Token} (h : t.isOperand) (phase : Phase) :
    advance scope settle phase t = (atomOutcome scope settle t).map phase.meet := by
  cases t with
  | undefined | number _ | text _ | name _ | call _ _ | group _ => rfl
  | operator _ | conditional _ _ => contradiction

theorem advance_of_atomOutcome {t : Token} {outcome : Except Stop (Option Token)}
    (h : atomOutcome scope settle t = outcome) (hne : outcome ≠ .error .outside) (phase : Phase) :
    advance scope settle phase t = outcome.map phase.meet := by
  subst h
  exact advance_of_isOperand (isOperand_of_atomOutcome hne) phase

theorem advance_of_isValue {t : Token} (h : t.isValue) (phase : Phase) :
    advance scope settle phase t = .ok (phase.take t) :=
  advance_of_atomOutcome (atomOutcome_of_isValue h) (by simp) phase

/-! Rewriting keeps the meaning. -/

/-- A change at the end of a sequence that keeps its meaning after whatever is read before it. -/
theorem meaningFrom_append_congr {tail changed : List Token}
    (h : ∀ phase, meaningFrom scope settle phase tail ≠ .error .outside →
      meaningFrom scope settle phase changed = meaningFrom scope settle phase tail)
    (before : List Token) (phase : Phase)
    (hm : meaningFrom scope settle phase (before ++ tail) ≠ .error .outside) :
    meaningFrom scope settle phase (before ++ changed) =
      meaningFrom scope settle phase (before ++ tail) := by
  induction before generalizing phase with
  | nil => exact h phase hm
  | cons t before ih =>
    simp only [List.cons_append, meaningFrom_cons] at hm ⊢
    cases ha : advance scope settle phase t with
    | error stop => rfl
    | ok next => exact ih next (by simpa [ha, Except.bind] using hm)

theorem branchOutcome_resolveBranch {branch : Branch} {tokens : List Token}
    (h : branchOutcome scope settle branch tokens ≠ .error .outside) :
    branchOutcome scope settle branch (resolveBranch settle branch tokens).result.1 =
      branchOutcome scope settle branch tokens := by
  unfold branchOutcome at h
  split at h
  · rename_i t hr
    unfold branchOutcome
    rw [hr, resolveBranch_of_single rfl]
    rfl
  · exact absurd rfl h

theorem chosenOutcome_resolveBranch {whenTrue whenFalse : List Token} {condition : Token}
    (h : chosenOutcome scope settle whenTrue whenFalse condition ≠ .error .outside) :
    chosenOutcome scope settle (resolveBranch settle .whenTrue whenTrue).result.1
        (resolveBranch settle .whenFalse whenFalse).result.1 condition =
      chosenOutcome scope settle whenTrue whenFalse condition := by
  unfold chosenOutcome at h ⊢
  split
  · rename_i hc
    exact branchOutcome_resolveBranch (by rwa [if_pos hc] at h)
  · rename_i hc
    exact branchOutcome_resolveBranch (by rwa [if_neg hc] at h)

/-- A conditional is read as another, if what the condition chooses there is the same. -/
theorem choose_congr {phase : Phase} {chosen changed : Token → Except Stop (Option Token)}
    (h : ∀ lhs, chosen lhs ≠ .error .outside → changed lhs = chosen lhs)
    (hm : phase.choose chosen ≠ .error .outside) : phase.choose changed = phase.choose chosen := by
  unfold Phase.choose at hm ⊢
  split
  · rename_i lhs hleft
    simp only [hleft] at hm
    split
    · rfl
    · rename_i hpending
      rw [if_neg hpending] at hm
      rw [h lhs]
      intro ho
      simp [ho, Except.map] at hm
  · rfl

theorem atomOutcome_group {inner : List Token} {t : Token}
    (h : (settle .parentheses inner).result.getLast? = some t) (ht : t ≠ .undefined) :
    atomOutcome scope settle (.group inner) =
      if t.isScalar then .ok (some t) else .error .outside := by
  rw [atomOutcome, lastValue_eq_some h ht]

theorem bind_ne_outside {α β : Type} {outcome : Except Stop α} {f : α → Except Stop β}
    (h : outcome.bind f ≠ .error .outside) : outcome ≠ .error .outside := by
  rintro rfl
  exact h rfl

theorem meaningFrom_of_rewrites {tokens after : List Token}
    (h : Rewrites scope settle tokens after) {phase : Phase}
    (hm : meaningFrom scope settle phase tokens ≠ .error .outside) :
    meaningFrom scope settle phase after = meaningFrom scope settle phase tokens := by
  have replaced {t u : Token} (ht : atomOutcome scope settle t = .ok (some u)) (phase : Phase) :
      advance scope settle phase u = advance scope settle phase t := by
    rw [advance_of_isValue (isValue_of_atomOutcome ht), advance_of_atomOutcome ht (by simp)]
    rfl
  cases h with
  | name before s after =>
    refine meaningFrom_append_congr (fun phase _ => ?_) before phase hm
    rw [meaningFrom_cons, meaningFrom_cons, @replaced (.name s) _ rfl]
  | @call before s arguments after t h =>
    have ho : atomOutcome scope settle (.call s arguments) = .ok (some t) := by
      simp [atomOutcome, h]
    refine meaningFrom_append_congr (fun phase _ => ?_) before phase hm
    rw [meaningFrom_cons, meaningFrom_cons, replaced ho]
  | @group before inner after t h ht =>
    have ho := @atomOutcome_group scope _ _ _ h ht
    refine meaningFrom_append_congr (fun phase hm => ?_) before phase hm
    rw [meaningFrom_cons] at hm
    rw [meaningFrom_cons, meaningFrom_cons]
    by_cases hs : t.isScalar
    · rw [replaced (ho.trans (if_pos hs))]
    · rw [advance_of_isOperand rfl, ho, if_neg hs] at hm
      exact absurd rfl hm
  | @groupGone before inner after h =>
    have ho : atomOutcome scope settle (.group inner) = .ok none := by
      rw [atomOutcome, lastValue_eq_none.mpr h]
    refine meaningFrom_append_congr (fun phase _ => ?_) before phase hm
    rw [meaningFrom_cons, advance_of_atomOutcome ho (by simp)]
    rfl
  | @conditional before whenTrue whenFalse after h =>
    refine meaningFrom_append_congr (fun phase hm => ?_) before phase hm
    rw [meaningFrom_cons] at hm
    rw [meaningFrom_cons, meaningFrom_cons]
    simp only [advance] at hm ⊢
    rw [choose_congr (fun _ => chosenOutcome_resolveBranch) (bind_ne_outside hm)]

theorem meaning_of_rewritesTo {tokens after : List Token}
    (h : RewritesTo scope settle tokens after)
    (hm : meaning scope settle tokens ≠ .error .outside) :
    meaning scope settle after = meaning scope settle tokens := by
  induction h with
  | refl => rfl
  | tail _ hr ih =>
    rw [← ih] at hm
    exact (meaningFrom_of_rewrites hr hm).trans ih

/-- A call that fails is the failure of its sequence. -/
theorem meaning_of_performCall {before arguments after : List Token} {s : String}
    {failure : Failure} (h : (performCall scope settle s arguments).run.result = .error failure)
    (hm : meaning scope settle (before ++ .call s arguments :: after) ≠ .error .outside) :
    meaning scope settle (before ++ .call s arguments :: after) = .error .failed := by
  have ho : atomOutcome scope settle (.call s arguments) = .error .failed := by
    simp [atomOutcome, h]
  unfold meaning at hm ⊢
  generalize Phase.start = phase at hm ⊢
  induction before generalizing phase with
  | nil =>
    rw [List.nil_append, meaningFrom_cons, advance_of_atomOutcome ho (by simp)]
    rfl
  | cons t before ih =>
    simp only [List.cons_append, meaningFrom_cons] at hm ⊢
    cases hn : advance scope settle phase t with
    | ok next => exact ih next (by simpa [hn, Except.bind] using hm)
    | error stop =>
      cases stop with
      | failed => rfl
      | outside => simp [hn, Except.bind] at hm

/-! Operators and what they stand before. -/

theorem meaningFrom_operators (phase : Phase) (ops : List Operator) (tokens : List Token) :
    meaningFrom scope settle phase (ops.map .operator ++ tokens) =
      meaningFrom scope settle (phase.after ops) tokens := by
  induction ops generalizing phase with
  | nil => simp [Phase.after]
  | cons op rest ih =>
    rw [List.map_cons, List.cons_append, meaningFrom_cons]
    refine (ih _).trans ?_
    simp [Phase.after]

theorem meaningFrom_value (phase : Phase) {t : Token} (h : t.isValue) (more : List Token) :
    meaningFrom scope settle phase (t :: more) = meaningFrom scope settle (phase.take t) more := by
  rw [meaningFrom_cons, advance_of_isValue h]
  rfl

theorem meaningFrom_operand (lhs : Token) (ops : List Operator) {t : Token} (h : t.isValue)
    (more : List Token) :
    meaningFrom scope settle ⟨.operand lhs, []⟩ (ops.map .operator ++ t :: more) =
      meaningFrom scope settle ⟨.operand (nextOperand lhs ops t), []⟩ more := by
  rw [meaningFrom_operators, meaningFrom_value _ h]
  rfl

theorem meaning_value {t : Token} (h : t.isValue) (more : List Token) :
    meaning scope settle (t :: more) = meaningFrom scope settle ⟨.operand t, []⟩ more := by
  rw [meaning, meaningFrom_value _ h]
  rfl

theorem meaning_operand (ops : List Operator) {t : Token} (h : t.isValue) (more : List Token) :
    meaning scope settle (ops.map .operator ++ t :: more) =
      meaningFrom scope settle ⟨.operand (firstOperand ops t), []⟩ more := by
  rw [meaning, meaningFrom_operators, meaningFrom_value _ h]
  rfl

/-- An operator that does not join its operands is dropped. -/
theorem meaning_drop_next {lhs : Token} (hl : lhs.isValue) {op : Operator} {ops : List Operator}
    {tail : List Token} (htail : AfterOperators tail)
    (hjoin : ∀ t ∈ tail.head?, joined? lhs (op :: ops) t = none)
    (hm : meaning scope settle (lhs :: .operator op :: (ops.map .operator ++ tail)) ≠
      .error .outside) :
    meaning scope settle (lhs :: (ops.map .operator ++ tail)) =
      meaning scope settle (lhs :: .operator op :: (ops.map .operator ++ tail)) := by
  have hread (ops : List Operator) : meaning scope settle (lhs :: (ops.map .operator ++ tail)) =
      meaningFrom scope settle ⟨.operand lhs, ops⟩ tail := by
    rw [meaning_value hl, meaningFrom_operators]
    rfl
  have hdropped := hread ops
  have hwhole := hread (op :: ops)
  rw [List.map_cons, List.cons_append] at hwhole
  rw [hwhole] at hm
  rw [hdropped, hwhole]
  cases htail with
  | nil => rfl
  | @value t ht more =>
    have hnext : nextOperand lhs (op :: ops) t = nextOperand lhs ops t := by
      rw [nextOperand, hjoin t rfl, Option.getD_none]
    rw [meaningFrom_value _ ht, meaningFrom_value _ ht, Phase.take, Phase.take, Left.take,
      Left.take, hnext]
  | conditional whenTrue whenFalse more =>
    cases ops with
    | cons next ops =>
      simp only [meaningFrom_cons, advance, Phase.choose, List.getLast?_cons_cons]
    | nil =>
      cases hop : op.isBinary with
      | true => simp [meaningFrom_cons, advance, Phase.choose, hop, Except.bind] at hm
      | false => simp [meaningFrom_cons, advance, Phase.choose, hop]

/-- An operator at the start that is no sign of the operand is dropped, unless it is all there is. -/
theorem meaning_drop_first {op : Operator} {ops : List Operator} {tail : List Token}
    (htail : AfterOperators tail) (hsign : ∀ t ∈ tail.head?, signed? (op :: ops) t = none)
    (hne : ops.map .operator ++ tail ≠ []) :
    meaning scope settle (ops.map .operator ++ tail) =
      meaning scope settle (.operator op :: (ops.map .operator ++ tail)) := by
  have hread (ops : List Operator) : meaning scope settle (ops.map .operator ++ tail) =
      meaningFrom scope settle ⟨.nothing, ops⟩ tail :=
    meaningFrom_operators .start ops tail
  rw [hread ops]
  refine Eq.trans ?_ (hread (op :: ops)).symm
  cases htail with
  | nil =>
    cases ops with
    | nil => exact absurd rfl hne
    | cons next ops => simp only [meaningFrom, Phase.finish, List.getLast?_cons_cons]
  | @value t ht more =>
    have hfirst : firstOperand (op :: ops) t = firstOperand ops t := by
      rw [firstOperand, hsign t rfl, Option.getD_none]
    simp only [meaningFrom_value _ ht, Phase.take, Left.take, hfirst]
  | conditional whenTrue whenFalse more => rfl

/-! Combining the first operand keeps the meaning. -/

/-- An operator at the start: its operand takes the signs, or it is dropped. -/
theorem meaning_of_applyFirst_operator {op : Operator} {rest after : List Token}
    (hp : ∀ t ∈ Token.operator op :: rest, t.isPlain)
    (hn : needsReduction (.operator op :: rest))
    (ha : (applyFirst (.operator op :: rest)).result = .progressed after) :
    meaning scope settle after = meaning scope settle (.operator op :: rest) := by
  obtain ⟨ops, tail, rfl, htail⟩ := exists_operators fun t ht => hp t (List.mem_cons_of_mem _ ht)
  by_cases hempty : ops.map Token.operator ++ tail = []
  · rw [hempty] at hn ha ⊢
    cases op <;> first | contradiction | exact Step.progressed.inj ha ▸ rfl
  have hfold : (if op.isSign then foldSign (.operator op :: (ops.map .operator ++ tail)) else none) =
      folded? (op :: ops) tail := by
    cases hsign : op.isSign with
    | true => exact foldSign_operators op ops htail
    | false => cases tail <;> simp [folded?, signed?_none (by simp [hsign] : ¬op.isSign)]
  simp only [applyFirst, List.isEmpty_eq_false_iff.mpr hempty, Bool.and_false, hfold,
    Bool.false_eq_true, if_false] at ha
  rcases folded?_cases op ops htail with ⟨t, more, u, rfl, ht, hu, hfolded⟩ | ⟨hsign, hfolded⟩
  · rw [hfolded] at ha
    obtain rfl : u :: more = after := by simpa using ha
    rw [meaning_value (isValue_signed? ht hu)]
    refine Eq.trans ?_ (meaning_operand (op :: ops) ht more).symm
    rw [firstOperand, hu, Option.getD_some]
  · rw [hfolded] at ha
    obtain rfl : ops.map .operator ++ tail = after := by simpa using ha
    exact meaning_drop_first htail hsign hempty

theorem meaning_joined {lhs t u : Token} (hl : lhs.isValue) {op : Operator} {ops : List Operator}
    (ht : t.isValue) (hjoin : joined? lhs (op :: ops) t = some u) (more : List Token) :
    meaning scope settle (lhs :: .operator op :: (ops.map .operator ++ t :: more)) =
      meaningFrom scope settle ⟨.operand u, []⟩ more := by
  rw [meaning_value hl]
  refine (meaningFrom_operand lhs (op :: ops) ht more).trans ?_
  rw [nextOperand, hjoin, Option.getD_some]

/-- A denial after a value: its operand takes it, or it is dropped. -/
theorem meaning_of_applyOperator_not {lhs : Token} (hl : lhs.isValue) {op : Operator}
    (hop : op.isLogicalNot) {rest : List Token} (hp : ∀ t ∈ rest, t.isPlain)
    (hm : meaning scope settle (lhs :: .operator op :: rest) ≠ .error .outside) :
    meaning scope settle (applyOperator lhs op rest).result =
      meaning scope settle (lhs :: .operator op :: rest) := by
  obtain ⟨ops, tail, rfl, htail⟩ := exists_operators hp
  have hbinary : op.isBinary = false := by
    obtain rfl | rfl := isLogicalNot_iff.mp hop <;> rfl
  have hjoin (t : Token) : joined? lhs (op :: ops) t =
      (signed? (op :: ops) t).map fun rhs => (mergeAdjacent lhs rhs).result := by
    rw [joined?, hbinary, if_neg Bool.false_ne_true, if_pos hop]
  have happly : (applyOperator lhs op (ops.map .operator ++ tail)).result =
      lhs :: (folded? (op :: ops) tail).getD (ops.map .operator ++ tail) := by
    rw [← foldSign_operators op ops htail]
    generalize ops.map Token.operator ++ tail = rest
    obtain rfl | rfl := isLogicalNot_iff.mp hop <;> cases rest <;> try rfl
    all_goals
      simp only [applyOperator]
      split <;> simp_all
  rcases folded?_cases op ops htail with ⟨t, more, u, rfl, ht, hu, hfolded⟩ | ⟨hsign, hfolded⟩
  · rw [happly, hfolded, Option.getD_some, meaning_value hl,
      meaning_joined hl ht ((hjoin t).trans (congrArg _ hu)),
      meaningFrom_value _ (isValue_signed? ht hu)]
    rfl
  · rw [happly, hfolded, Option.getD_none]
    exact meaning_drop_next hl htail (fun t ht => by rw [hjoin, hsign t ht]; rfl) hm

/-- A binary operator after a value: it is applied to the operand and its signs, or is dropped. -/
theorem meaning_of_applyOperator_binary {lhs : Token} (hl : lhs.isValue) {op : Operator}
    (hop : op.isBinary) {rest : List Token} (hp : ∀ t ∈ rest, t.isPlain)
    (hm : meaning scope settle (lhs :: .operator op :: rest) ≠ .error .outside) :
    meaning scope settle (applyOperator lhs op rest).result =
      meaning scope settle (lhs :: .operator op :: rest) := by
  obtain ⟨ops, tail, rfl, htail⟩ := exists_operators hp
  have happly (t : Token) (rest : List Token) : applyOperator lhs op (t :: rest) =
      applyToOperands lhs op ((foldSign (t :: rest)).getD (t :: rest)) := by
    cases op <;> first | rfl | contradiction
  have hjoin (t : Token) : joined? lhs (op :: ops) t =
      (signed? ops t).map fun rhs => (applyBinary op lhs rhs).result := by
    rw [joined?, if_pos hop]
  have hone {t : Token} (ht : t.isValue) (more : List Token) :
      (applyToOperands lhs op (t :: more)).result = (applyBinary op lhs t).result :: more := by
    obtain rfl | ⟨_, rfl⟩ | ⟨_, rfl⟩ := value_cases ht <;> rfl
  cases ops with
  | nil =>
    cases htail with
    | nil => exact meaning_drop_next hl .nil (by simp) hm
    | @value t ht more =>
      have hfold : foldSign (t :: more) = none := by
        obtain rfl | ⟨_, rfl⟩ | ⟨_, rfl⟩ := value_cases ht <;> rfl
      rw [List.map_nil, List.nil_append, happly, hfold, Option.getD_none, hone ht,
        meaning_value (isValue_applyBinary op lhs t)]
      have hjoined := (hjoin t).trans (congrArg _ (signed?_nil t))
      exact (@meaning_joined _ _ lhs t _ hl op [] ht hjoined more).symm
    | conditional whenTrue whenFalse more =>
      refine absurd ?_ hm
      rw [meaning_value hl]
      refine (meaningFrom_operators _ [op] _).trans ?_
      simp [meaningFrom_cons, advance, Phase.choose, Phase.after, hop, Except.bind]
  | cons next ops =>
    have hfold := foldSign_operators next ops htail
    rw [List.map_cons, List.cons_append, happly, hfold]
    rcases folded?_cases next ops htail with
      ⟨t, more, u, rfl, ht, hu, hfolded⟩ | ⟨hsign, hfolded⟩
    · have hv := isValue_applyBinary op lhs u
      rw [hfolded, Option.getD_some, hone (isValue_signed? ht hu), meaning_value hv]
      exact (meaning_joined hl ht ((hjoin t).trans (congrArg _ hu)) more).symm
    · rw [hfolded, Option.getD_none]
      exact meaning_drop_next hl htail (fun t ht => by rw [hjoin, hsign t ht]; rfl) hm

/-- A separator or an assignment after a value is dropped. -/
theorem meaning_of_applyOperator_other {lhs : Token} (hl : lhs.isValue) {op : Operator}
    (hnot : ¬op.isLogicalNot) (hbinary : ¬op.isBinary) {rest : List Token}
    (hp : ∀ t ∈ rest, t.isPlain)
    (hm : meaning scope settle (lhs :: .operator op :: rest) ≠ .error .outside) :
    meaning scope settle (applyOperator lhs op rest).result =
      meaning scope settle (lhs :: .operator op :: rest) := by
  obtain ⟨ops, tail, rfl, htail⟩ := exists_operators hp
  have happly : (applyOperator lhs op (ops.map .operator ++ tail)).result =
      lhs :: (ops.map .operator ++ tail) := by
    generalize ops.map Token.operator ++ tail = rest
    cases op <;> cases rest <;> first | rfl | contradiction
  rw [happly]
  exact meaning_drop_next hl htail (fun t _ => by rw [joined?, if_neg hbinary, if_neg hnot]) hm

/-- A conditional at the start is dropped, unless it is all there is. -/
theorem meaning_of_applyFirst_conditional (whenTrue whenFalse : List Token) {rest : List Token}
    (hp : ∀ t ∈ rest, t.isPlain) (hne : rest ≠ []) :
    meaning scope settle rest = meaning scope settle (.conditional whenTrue whenFalse :: rest) := by
  obtain ⟨ops, tail, rfl, htail⟩ := exists_operators hp
  have hstray :
      meaning scope settle (.conditional whenTrue whenFalse :: (ops.map .operator ++ tail)) =
        meaningFrom scope settle ⟨.stray, ops⟩ tail :=
    meaningFrom_operators ⟨.stray, []⟩ ops tail
  rw [hstray]
  refine (meaningFrom_operators .start ops tail).trans ?_
  cases htail with
  | nil =>
    cases hlast : ops.getLast? with
    | none => exact absurd (by simp [List.getLast?_eq_none_iff.mp hlast]) hne
    | some op => cases op <;> simp [meaningFrom, Phase.finish, Phase.after, Phase.start, hlast]
  | value ht more =>
    rw [meaningFrom_value _ ht, meaningFrom_value _ ht]
    rfl
  | conditional => rfl

/-- A conditional after a value gives way to the token of the branch that is chosen. -/
theorem meaning_of_chooseBranch {lhs : Token} (hl : lhs.isValue)
    {whenTrue whenFalse rest : List Token} (hs : whenTrue.length = 1 ∧ whenFalse.length = 1)
    (hm : meaning scope settle (lhs :: .conditional whenTrue whenFalse :: rest) ≠
      .error .outside) :
    meaning scope settle (chooseBranch lhs whenTrue whenFalse :: rest) =
      meaning scope settle (lhs :: .conditional whenTrue whenFalse :: rest) := by
  obtain ⟨t, rfl⟩ := List.length_eq_one_iff.mp hs.1
  obtain ⟨u, rfl⟩ := List.length_eq_one_iff.mp hs.2
  have hbranch (branch : Branch) (t : Token) :
      branchOutcome scope settle branch [t] = atomOutcome scope settle t := by
    rw [branchOutcome, resolveBranch_of_single rfl]
    rfl
  have hchosen : chosenOutcome scope settle [t] [u] lhs =
      atomOutcome scope settle (chooseBranch lhs [t] [u]) := by
    simp only [chosenOutcome, hbranch, chooseBranch]
    split <;> rfl
  have hadvance : advance scope settle ⟨.operand lhs, []⟩ (.conditional [t] [u]) =
      (atomOutcome scope settle (chooseBranch lhs [t] [u])).map Phase.start.meet :=
    congrArg (Except.map Phase.start.meet) hchosen
  rw [meaning_value hl, meaningFrom_cons, hadvance] at hm ⊢
  rw [meaning, meaningFrom_cons, advance_of_atomOutcome rfl]
  intro ho
  simp [ho, Except.map, Except.bind] at hm

/-- A step that combines the first operand keeps the meaning. -/
theorem meaning_of_applyFirst {tokens after : List Token} (hs : Settled tokens)
    (hn : needsReduction tokens) (ha : (applyFirst tokens).result = .progressed after)
    (hm : meaning scope settle tokens ≠ .error .outside) :
    meaning scope settle after = meaning scope settle tokens := by
  cases tokens with
  | nil => simp [applyFirst] at ha
  | cons first rest =>
    rcases plain_cases (hs.plain first (by simp)) with hv | ⟨op, rfl⟩ | ⟨_, _, rfl⟩
    · cases rest with
      | nil => obtain rfl | ⟨_, rfl⟩ | ⟨_, rfl⟩ := value_cases hv <;> simp [applyFirst] at ha
      | cons second rest =>
        rcases plain_cases (hs.plain second (by simp)) with
          hv' | ⟨op, rfl⟩ | ⟨whenTrue, whenFalse, rfl⟩
        · obtain rfl := Step.progressed.inj ((applyFirst_value hv hv' rest).symm.trans ha)
          rw [meaning_value (isValue_mergeAdjacent hv hv'), meaning_value hv,
            meaningFrom_value _ hv']
          rfl
        · obtain rfl := Step.progressed.inj ((applyFirst_operator hv op rest).symm.trans ha)
          have hp : ∀ t ∈ rest, t.isPlain := fun t ht => hs.plain t (by simp [ht])
          by_cases hbinary : op.isBinary
          · exact meaning_of_applyOperator_binary hv hbinary hp hm
          by_cases hnot : op.isLogicalNot
          · exact meaning_of_applyOperator_not hv hnot hp hm
          · exact meaning_of_applyOperator_other hv hnot hbinary hp hm
        · obtain rfl := Step.progressed.inj
            ((applyFirst_conditional hv whenTrue whenFalse rest).symm.trans ha)
          exact meaning_of_chooseBranch hv (hs.single_branches hv) hm
    · exact meaning_of_applyFirst_operator hs.plain hn ha
    · obtain rfl : rest = after := Step.progressed.inj ha
      refine meaning_of_applyFirst_conditional _ _ (fun t ht => hs.plain t (by simp [ht])) ?_
      rintro rfl
      contradiction

/-! A run gives the meaning. -/

theorem meaning_of_stepWith {tokens after : List Token} (hn : needsReduction tokens)
    (h : (stepWith scope settle tokens).run.result = .ok (.progressed after))
    (hm : meaning scope settle tokens ≠ .error .outside) :
    meaning scope settle after = meaning scope settle tokens := by
  rcases stepWith_cases h with ⟨after', ha, hr⟩ | ⟨hs, ha⟩
  · obtain rfl := Step.progressed.inj ha
    exact meaning_of_rewritesTo hr.to_reflTransGen hm
  · exact meaning_of_applyFirst hs hn ha.symm hm

theorem meaning_of_stepWith_error {tokens : List Token} {failure : Failure}
    (h : (stepWith scope settle tokens).run.result = .error failure)
    (hm : meaning scope settle tokens ≠ .error .outside) :
    meaning scope settle tokens = .error .failed := by
  obtain ⟨before, s, arguments, after, hr, hc⟩ := performCall_of_stepWith h
  have he := meaning_of_rewritesTo hr hm
  rw [← he] at hm ⊢
  exact meaning_of_performCall hc hm

/-- How the loop on a sequence ends, by what is left of the sequence. -/
inductive EndsWith : Except Stop Left → Except Failure (List Token) → Prop
  | operand {t : Token} (h : t.isValue) : EndsWith (.ok (.operand t)) (.ok [t])
  | nothing : EndsWith (.ok .nothing) (.ok [])
  | stray {t : Token} (h : t.isOperand = false) : EndsWith (.ok .stray) (.ok [t])
  | failed (failure : Failure) : EndsWith (.error .failed) (.error failure)

/-- What is left when there is nothing to reduce is all of the sequence. -/
theorem endsWith_of_not_needsReduction {tokens : List Token} (hn : needsReduction tokens = false) :
    EndsWith (meaning scope settle tokens) (.ok tokens) := by
  match tokens with
  | [] => exact .nothing
  | [t] =>
    cases t with
    | undefined | number _ | text _ => exact .operand rfl
    | name _ | call _ _ | group _ => simp [needsReduction] at hn
    | operator op => cases op <;> first | exact .stray rfl | contradiction
    | conditional _ _ => exact .stray rfl
  | _ :: _ :: _ => simp [needsReduction] at hn

/-- The loop on a sequence ends with what is left of it. -/
theorem endsWith_drive {limit levels fuel : Nat} {tokens : List Token}
    (hf : sequenceWeight tokens ≤ fuel)
    (hm : meaning scope (settleAt scope limit levels) tokens ≠ .error .outside) :
    EndsWith (meaning scope (settleAt scope limit levels) tokens)
      (drive (reduce scope limit (levels + 1)) fuel tokens).run.result := by
  induction fuel generalizing tokens with
  | zero =>
    exact endsWith_of_not_needsReduction (needsReduction_of_weight_zero (Nat.le_zero.mp hf))
  | succ fuel ih =>
    cases hn : needsReduction tokens with
    | false =>
      have hdrive : (drive (reduce scope limit (levels + 1)) (fuel + 1) tokens).run.result =
          .ok tokens := by simp [drive, hn]
      exact hdrive ▸ endsWith_of_not_needsReduction hn
    | true =>
      simp only [drive, hn, if_true, ExceptT.run_bind, Reported.result_bind]
      cases hr : (reduce scope limit (levels + 1) tokens).run.result with
      | error failure =>
        rw [meaning_of_stepWith_error hr hm]
        exact .failed failure
      | ok outcome =>
        cases outcome with
        | stalled => exact absurd hr (reduce_ne_stalled scope limit _ hn)
        | progressed after =>
          have hw := weight_lt_of_reduce hr
          have he := meaning_of_stepWith hn hr hm
          rw [← he] at hm ⊢
          exact ih (by omega) hm

end Reckon
