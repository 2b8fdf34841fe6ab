import Reckon.Proofs.AssignmentRuns
import Reckon.Proofs.ReductionMeaning
import Reckon.Proofs.SequenceTrees

/-!
What the tokens of a sequence evaluate to, by recursion on the sequence.

Its value is a left fold of what follows the first operand. Its outcome is that fold with what nulls and
failures do to it: a group without a value is passed over, and a failure is that of the innermost
sequence around it. No sequence of tokens is rewritten for either. Reduction of the tokens comes to the
outcome, though it replaces the operands in another order; and where every call gives a number or text,
the outcome is the value.
-/

namespace Reckon

/-! The value, for sequences without nulls and failures. -/

mutual

def Atom.value (scope : Scope) : Atom → Token
  | .number n => .number n
  | .text s => .text s
  | .name s => (lookup scope.store s).result
  | .group inner => inner.value scope
  | .call s arguments =>
    match scope.functions.get? s with
    | none => .undefined
    | some function =>
      match function (arguments.valueList scope) with
      | .ok v => .ofValue v
      | .error _ => .undefined

def Sequence.value (scope : Scope) : Sequence → Token
  | .mk signs first rest => rest.value scope (signs.apply (first.value scope))

/-- The value of an operand with what follows it. -/
def Rests.value (scope : Scope) (lhs : Token) : Rests → Token
  | .nil => lhs
  | .binary op _ signs operand rest =>
    rest.value scope (applyBinary op lhs (signs.apply (operand.value scope))).result
  | .adjacent operand rest => rest.value scope (mergeAdjacent lhs (operand.value scope)).result
  | .denied double negated operand rest =>
    let rhs := (Signs.denied double negated).apply (operand.value scope)
    rest.value scope (mergeAdjacent lhs rhs).result
  | .conditional whenTrue whenFalse rest =>
    rest.value scope (if lhs.toNumber != 0.0 then whenTrue.value scope else whenFalse.value scope)

def Arguments.valueList (scope : Scope) : Arguments → List Value
  | .nil => []
  | .last argument => [(argument.value scope).toValue]
  | .more argument rest => (argument.value scope).toValue :: rest.valueList scope

end

/-! The outcome, for all of them. -/

/-- The token of a nested sequence, null if it fails or nothing is left of it. -/
def nestedToken : Except Stop Left → Except Stop Token
  | .ok (.operand t) => .ok t
  | .ok .nothing | .error .failed => .ok .undefined
  | .ok .stray | .error .outside => .error .outside

/-- The value of an argument, null unless it comes down to a number or text. -/
def argumentValue : Except Stop Left → Except Stop Value
  | .ok (.operand t) => .ok t.toValue
  | .ok .nothing | .ok .stray | .error .failed => .ok .null
  | .error .outside => .error .outside

/-- What is left of a branch that is chosen. A single token takes the place of the conditional, and a
call there that fails is left out; any other branch is a nested sequence. -/
def branchToken? (isAtom : Bool) (outcome : Except Stop Left) : Except Stop (Option Token) :=
  if isAtom then
    match outcome with
    | .ok (.operand t) => .ok (some t)
    | .ok _ => .ok none
    | .error _ => .error .outside
  else (nestedToken outcome).map some

mutual

/-- What is left of an atom. A group without a value is taken out. -/
def Atom.outcome (scope : Scope) : Atom → Except Stop (Option Token)
  | .number n => .ok (some (.number n))
  | .text s => .ok (some (.text s))
  | .name s => .ok (some (lookup scope.store s).result)
  | .group inner => do
    let t ← nestedToken (inner.outcome scope)
    .ok (if t.isScalar then some t else none)
  | .call s arguments =>
    if s.isEmpty then .ok (some .undefined)
    else match scope.functions.get? s with
      | none => .ok (some .undefined)
      | some function => do
        let values ← arguments.values scope
        match function values with
        | .ok v => .ok (some (.ofValue v))
        | .error _ => .error .failed

def Sequence.outcome (scope : Scope) : Sequence → Except Stop Left
  | .mk signs first rest => do
    let t? ← first.outcome scope
    rest.outcome scope ((Phase.start.after signs.operators).meet t?)

/-- What is left of a sequence that has been read so far. -/
def Rests.outcome (scope : Scope) (phase : Phase) : Rests → Except Stop Left
  | .nil => .ok phase.finish
  | .binary op _ signs operand rest => do
    let t? ← operand.outcome scope
    rest.outcome scope ((phase.after (op :: signs.operators)).meet t?)
  | .adjacent operand rest => do
    let t? ← operand.outcome scope
    rest.outcome scope (phase.meet t?)
  | .denied double negated operand rest => do
    let t? ← operand.outcome scope
    rest.outcome scope ((phase.after (Signs.denied double negated).operators).meet t?)
  | .conditional whenTrue whenFalse rest => do
    let next ← phase.choose fun lhs =>
      if lhs.toNumber != 0.0 then branchToken? whenTrue.isAtom (whenTrue.outcome scope)
      else branchToken? whenFalse.isAtom (whenFalse.outcome scope)
    rest.outcome scope next

def Arguments.values (scope : Scope) : Arguments → Except Stop (List Value)
  | .nil => .ok []
  | .last argument => do
    let v ← argumentValue (argument.outcome scope)
    .ok [v]
  | .more argument rest => do
    let v ← argumentValue (argument.outcome scope)
    let values ← rest.values scope
    .ok (v :: values)

end

/-! Reduction of the tokens comes to the outcome. -/

section Tokens

variable {scope : Scope} {limit levels : Nat}

/-- What a nested sequence is reduced to, by what is left of it. -/
inductive SettlesTo : Except Stop Left → List Token → Prop
  | operand {t : Token} (h : t.isValue) : SettlesTo (.ok (.operand t)) [t]
  | nothing : SettlesTo (.ok .nothing) []
  | stray {t : Token} (h : t.isOperand = false) : SettlesTo (.ok .stray) [t]
  | failed : SettlesTo (.error .failed) [.undefined]

theorem settlesTo_settleAt {tokens : List Token} {outcome : Except Stop Left}
    (hm : meaning scope (settleAt scope limit levels) tokens = outcome)
    (h : outcome ≠ .error .outside) (place : Place) :
    SettlesTo outcome (settleAt scope limit (levels + 1) place tokens).result := by
  have hends := endsWith_drive (Nat.le_refl _) (hm ▸ h)
  rw [hm] at hends
  rw [settleAt, result_settleWith]
  generalize (drive (reduce scope limit (levels + 1)) (sequenceWeight tokens) tokens).run.result =
    ended at hends
  cases hends with
  | operand ht => exact .operand ht
  | nothing => exact .nothing
  | stray ht => exact .stray ht
  | failed failure => exact .failed

/-- The token in the place of a group. -/
theorem atomOutcome_settlesTo {settle : Settle} {outcome : Except Stop Left} {inner : List Token}
    (h : SettlesTo outcome (settle .parentheses inner).result) :
    atomOutcome scope settle (.group inner) =
      (nestedToken outcome).map fun t => if t.isScalar then some t else none := by
  rw [atomOutcome]
  generalize (settle .parentheses inner).result = settled at h
  cases h with
  | operand ht => obtain rfl | ⟨_, rfl⟩ | ⟨_, rfl⟩ := value_cases ht <;> rfl
  | nothing | failed => rfl
  | @stray t ht => cases t <;> first | rfl | contradiction

/-- A branch of several tokens gives way to the token that it is reduced to. -/
theorem branchOutcome_settlesTo {settle : Settle} {outcome : Except Stop Left}
    {tokens : List Token} (hlong : 1 < tokens.length)
    (h : SettlesTo outcome (settle .branch tokens).result) (branch : Branch) :
    branchOutcome scope settle branch tokens = (nestedToken outcome).map some := by
  rw [branchOutcome, result_resolveBranch_of_long hlong]
  generalize (settle .branch tokens).result = settled at h
  cases h with
  | operand ht => exact atomOutcome_of_isValue ht
  | nothing | failed => rfl
  | @stray t ht => cases t <;> first | rfl | contradiction

theorem argumentValues_settlesTo {settle : Settle} {outcome : Except Stop Left}
    {argument : List Token} (h : SettlesTo outcome (settle .argument argument).result) :
    ∃ v, argumentValue outcome = .ok v ∧ ∀ rest,
      (argumentValues settle (argument :: rest)).result =
        v :: (argumentValues settle rest).result := by
  simp only [argumentValues, Reported.result_bind, Reported.result_pure]
  generalize (settle .argument argument).result = settled at h
  cases h with
  | operand ht => exact ⟨_, rfl, fun _ => rfl⟩
  | nothing | failed => exact ⟨_, rfl, fun _ => rfl⟩
  | @stray t ht => cases t <;> first | exact ⟨_, rfl, fun _ => rfl⟩ | contradiction

theorem exists_below {tokens : List Token} {levels : Nat} (h : sequenceNesting tokens + 1 ≤ levels) :
    ∃ below, levels = below + 1 ∧ ∀ t ∈ tokens, t.nesting ≤ below := by
  obtain ⟨below, rfl⟩ : ∃ below, levels = below + 1 := ⟨levels - 1, by omega⟩
  exact ⟨below, rfl, sequenceNesting_le_iff.mp (by omega)⟩

theorem meaningFrom_operand_rests {settle : Settle} {phase : Phase} {ops : List Operator}
    {operand : Atom} {rest : Rests}
    (hoperand : operand.outcome scope ≠ .error .outside →
      atomOutcome scope settle operand.token = operand.outcome scope)
    (hrest : ∀ phase, rest.outcome scope phase ≠ .error .outside →
      meaningFrom scope settle phase rest.tokens = rest.outcome scope phase)
    (h : (operand.outcome scope).bind (fun t? => rest.outcome scope ((phase.after ops).meet t?)) ≠
      .error .outside) :
    meaningFrom scope settle phase (ops.map .operator ++ operand.token :: rest.tokens) =
      (operand.outcome scope).bind fun t? => rest.outcome scope ((phase.after ops).meet t?) := by
  rw [meaningFrom_operators, meaningFrom_cons, advance_of_isOperand operand.isOperand_token,
    hoperand (bind_ne_outside h)]
  cases ho : operand.outcome scope with
  | error stop => rfl
  | ok t? => exact hrest _ (by simpa [ho, Except.bind] using h)

/-- A branch of one token is read as the token, and any other as what it is reduced to. -/
theorem branchOutcome_tokens {s : Sequence} {below : Nat}
    (hm : ∀ levels, (∀ t ∈ s.tokens, t.nesting ≤ levels) → s.outcome scope ≠ .error .outside →
      meaning scope (settleAt scope limit levels) s.tokens = s.outcome scope)
    (hn : ∀ t ∈ s.tokens, t.nesting ≤ below) (branch : Branch)
    (h : branchToken? s.isAtom (s.outcome scope) ≠ .error .outside) :
    branchOutcome scope (settleAt scope limit (below + 1)) branch s.tokens =
      branchToken? s.isAtom (s.outcome scope) := by
  have ho : s.outcome scope ≠ .error .outside := by
    intro ho
    rw [ho] at h
    cases hs : s.isAtom <;> exact h (by rw [hs]; rfl)
  cases ha : s.isAtom with
  | true =>
    have hread := hm (below + 1) (fun t ht => Nat.le_succ_of_le (hn t ht)) ho
    obtain ⟨a, hs⟩ := Sequence.eq_of_isAtom ha
    have htokens : s.tokens = [a.token] := by rw [hs]; rfl
    rw [htokens, meaning, meaningFrom_cons, advance_of_isOperand a.isOperand_token] at hread
    rw [← hread, ha] at h
    rw [← hread, htokens, branchOutcome, resolveBranch_of_single rfl, Reported.result_pure]
    dsimp only
    cases hatom : atomOutcome scope (settleAt scope limit (below + 1)) a.token with
    | error stop => exact absurd (by rw [hatom]; rfl) h
    | ok t? => cases t? <;> rfl
  | false =>
    have hsettles := settlesTo_settleAt (hm below hn ho) ho .branch
    exact branchOutcome_settlesTo (Sequence.long_of_not_isAtom ha) hsettles branch

mutual

theorem atomOutcome_token (a : Atom) {levels : Nat} (hn : a.token.nesting ≤ levels)
    (h : a.outcome scope ≠ .error .outside) :
    atomOutcome scope (settleAt scope limit levels) a.token = a.outcome scope := by
  cases a with
  | number n => rfl
  | text s => rfl
  | name s => rfl
  | group inner =>
    obtain ⟨below, rfl, hbelow⟩ := exists_below hn
    simp only [Atom.outcome] at h ⊢
    have hi : inner.outcome scope ≠ .error .outside := by
      intro hi
      exact h (by rw [hi]; rfl)
    have hm := meaning_tokens inner hbelow hi
    exact atomOutcome_settlesTo (settlesTo_settleAt hm hi .parentheses)
  | call s arguments =>
    obtain ⟨below, rfl, hbelow⟩ := exists_below hn
    simp only [Atom.outcome] at h ⊢
    simp only [Atom.token, atomOutcome, result_performCall]
    cases hne : s.isEmpty with
    | true => rfl
    | false =>
      cases hf : scope.functions.get? s with
      | none => rfl
      | some function =>
        simp only [hne, hf, Bool.false_eq_true, if_false] at h ⊢
        rw [values_tokens arguments hbelow (bind_ne_outside h)]
        simp only [bind, Except.bind]
        cases function (argumentValues (settleAt scope limit (below + 1))
          (splitArguments arguments.tokens)).result <;> rfl

theorem meaning_tokens (s : Sequence) {levels : Nat} (hn : ∀ t ∈ s.tokens, t.nesting ≤ levels)
    (h : s.outcome scope ≠ .error .outside) :
    meaning scope (settleAt scope limit levels) s.tokens = s.outcome scope := by
  obtain ⟨signs, first, rest⟩ := s
  exact meaningFrom_operand_rests (atomOutcome_token first (hn _ (by simp [Sequence.tokens])))
    (fun _ => meaningFrom_rests rest fun t ht => hn t (by simp [Sequence.tokens, ht])) h

theorem meaningFrom_rests (rest : Rests) {levels : Nat} {phase : Phase}
    (hn : ∀ t ∈ rest.tokens, t.nesting ≤ levels)
    (h : rest.outcome scope phase ≠ .error .outside) :
    meaningFrom scope (settleAt scope limit levels) phase rest.tokens =
      rest.outcome scope phase := by
  match rest with
  | .nil => rfl
  | .binary op hop signs operand rest =>
    exact @meaningFrom_operand_rests _ _ phase (op :: signs.operators) operand rest
      (atomOutcome_token operand (hn _ (by simp [Rests.tokens])))
      (fun _ => meaningFrom_rests rest fun t ht => hn t (by simp [Rests.tokens, ht])) h
  | .adjacent operand rest =>
    have hafter : phase.after [] = phase := by simp [Phase.after]
    have hread := @meaningFrom_operand_rests _ _ phase [] operand rest
      (atomOutcome_token operand (hn _ (by simp [Rests.tokens])))
      (fun _ => meaningFrom_rests rest fun t ht => hn t (by simp [Rests.tokens, ht]))
    rw [hafter] at hread
    exact hread h
  | .denied double negated operand rest =>
    exact meaningFrom_operand_rests (atomOutcome_token operand (hn _ (by simp [Rests.tokens])))
      (fun _ => meaningFrom_rests rest fun t ht => hn t (by simp [Rests.tokens, ht])) h
  | .conditional whenTrue whenFalse rest =>
    simp only [Rests.outcome] at h ⊢
    obtain ⟨below, rfl, hbelow⟩ : ∃ below, levels = below + 1 ∧
        (∀ t ∈ whenTrue.tokens, t.nesting ≤ below) ∧ ∀ t ∈ whenFalse.tokens, t.nesting ≤ below := by
      have hlevels := hn (.conditional whenTrue.tokens whenFalse.tokens) (by simp [Rests.tokens])
      simp only [Token.nesting] at hlevels
      exact ⟨levels - 1, by omega, sequenceNesting_le_iff.mp (by omega),
        sequenceNesting_le_iff.mp (by omega)⟩
    have hchosen (lhs : Token)
        (hl : (if lhs.toNumber != 0.0 then branchToken? whenTrue.isAtom (whenTrue.outcome scope)
          else branchToken? whenFalse.isAtom (whenFalse.outcome scope)) ≠ .error .outside) :
        chosenOutcome scope (settleAt scope limit (below + 1)) whenTrue.tokens whenFalse.tokens lhs =
          if lhs.toNumber != 0.0 then branchToken? whenTrue.isAtom (whenTrue.outcome scope)
          else branchToken? whenFalse.isAtom (whenFalse.outcome scope) := by
      unfold chosenOutcome
      split
      · rename_i hc
        rw [if_pos hc] at hl
        exact branchOutcome_tokens (fun _ hn => meaning_tokens whenTrue hn) hbelow.1 .whenTrue hl
      · rename_i hc
        rw [if_neg hc] at hl
        exact branchOutcome_tokens (fun _ hn => meaning_tokens whenFalse hn) hbelow.2 .whenFalse hl
    rw [Rests.tokens, meaningFrom_cons, advance, choose_congr hchosen (bind_ne_outside h)]
    cases hnext : phase.choose _ with
    | error stop => rfl
    | ok next =>
      rw [hnext] at h
      exact meaningFrom_rests rest (fun t ht => hn t (by simp [Rests.tokens, ht])) h

theorem values_tokens (arguments : Arguments) {levels : Nat}
    (hn : ∀ t ∈ arguments.tokens, t.nesting ≤ levels)
    (h : arguments.values scope ≠ .error .outside) :
    arguments.values scope = .ok (argumentValues (settleAt scope limit (levels + 1))
      (splitArguments arguments.tokens)).result := by
  match arguments with
  | .nil => rfl
  | .last argument =>
    simp only [Arguments.values] at h ⊢
    have ha : argument.outcome scope ≠ .error .outside := by
      intro ha
      exact h (by rw [ha]; rfl)
    obtain ⟨v, hv, hvalues⟩ := argumentValues_settlesTo
      (@settlesTo_settleAt _ limit _ _ _ (meaning_tokens argument hn ha) ha .argument)
    rw [hv, Arguments.tokens, splitArguments_of_ne_nil argument.isOperator_comma
      argument.tokens_ne_nil, hvalues]
    rfl
  | .more argument rest =>
    simp only [Arguments.values] at h ⊢
    have ha : argument.outcome scope ≠ .error .outside := by
      intro ha
      exact h (by rw [ha]; rfl)
    have hfirst : ∀ t ∈ argument.tokens, t.nesting ≤ levels := fun t ht =>
      hn t (by simp [Arguments.tokens, ht])
    obtain ⟨v, hv, hvalues⟩ := argumentValues_settlesTo
      (@settlesTo_settleAt _ limit _ _ _ (meaning_tokens argument hfirst ha) ha .argument)
    have hrest : rest.values scope ≠ .error .outside := by
      intro hrest
      exact h (by rw [hv, hrest]; rfl)
    rw [hv, values_tokens rest (fun t ht => hn t (by simp [Arguments.tokens, ht])) hrest,
      Arguments.tokens, splitArguments_append_comma argument.isOperator_comma, hvalues]
    rfl

end

end Tokens

/-! Where every call gives a number or text, the outcome is the value. -/

/-- Whether a token, if it is a call, is one of a function that gives a number or text for all
arguments. -/
def Token.Answered (scope : Scope) : Bool → Token → Prop
  | _, .call s _ => s.isEmpty = false ∧ ∃ function, scope.functions.get? s = some function ∧
    ∀ values, ∃ v, function values = .ok v ∧ v.isNull = false
  | _, _ => True

section Answered

variable {scope : Scope}

theorem isScalar_lookup (store : Table Value) (s : String) :
    (lookup store s).result.isScalar := by
  unfold lookup
  split
  · rfl
  · rename_i v _ _
    cases v <;> first | rfl | contradiction
  · split <;> rfl

theorem meet_first (signs : Signs) {t : Token} (h : t.isScalar) :
    (Phase.start.after signs.operators).meet (some t) = ⟨.operand (signs.apply t), []⟩ :=
  congrArg (Phase.mk · []) <| congrArg Left.operand (firstOperand_signs signs h)

theorem meet_binary (lhs : Token) {op : Operator} (hop : op.isBinary) (signs : Signs) {t : Token}
    (h : t.isScalar) :
    (Phase.after ⟨.operand lhs, []⟩ (op :: signs.operators)).meet (some t) =
      ⟨.operand (applyBinary op lhs (signs.apply t)).result, []⟩ :=
  congrArg (Phase.mk · []) <| congrArg Left.operand (nextOperand_binary lhs hop signs h)

theorem meet_denied (lhs : Token) (double negated : Bool) {t : Token} (h : t.isScalar) :
    (Phase.after ⟨.operand lhs, []⟩ (Signs.denied double negated).operators).meet (some t) =
      ⟨.operand (mergeAdjacent lhs ((Signs.denied double negated).apply t)).result, []⟩ :=
  congrArg (Phase.mk · []) <| congrArg Left.operand (nextOperand_denied lhs double negated h)

mutual

theorem Atom.outcome_eq_value (a : Atom) {inArguments : Bool}
    (h : a.token.Every (Token.Answered scope) inArguments) :
    a.outcome scope = .ok (some (a.value scope)) ∧ (a.value scope).isScalar := by
  cases a with
  | number n => exact ⟨rfl, rfl⟩
  | text s => exact ⟨rfl, rfl⟩
  | name s => exact ⟨rfl, isScalar_lookup scope.store s⟩
  | group inner =>
    simp only [Atom.token, Token.Every] at h
    obtain ⟨ho, hs⟩ := inner.outcome_eq_value h.2
    simp only [Atom.outcome, Atom.value, ho]
    exact ⟨congrArg Except.ok (if_pos hs), hs⟩
  | call s arguments =>
    simp only [Atom.token, Token.Every] at h
    obtain ⟨hne, function, hget, hgives⟩ := h.1
    obtain ⟨v, hv, hnull⟩ := hgives (arguments.valueList scope)
    simp only [Atom.outcome, Atom.value, hne, hget, arguments.values_eq_valueList h.2, hv,
      bind, Except.bind]
    refine ⟨rfl, ?_⟩
    cases v <;> first | rfl | contradiction

theorem Sequence.outcome_eq_value (s : Sequence) {inArguments : Bool}
    (h : AllEvery (Token.Answered scope) inArguments s.tokens) :
    s.outcome scope = .ok (.operand (s.value scope)) ∧ (s.value scope).isScalar := by
  obtain ⟨signs, first, rest⟩ := s
  rw [Sequence.tokens, allEvery_append, AllEvery] at h
  obtain ⟨ho, hs⟩ := first.outcome_eq_value h.2.1
  simp only [Sequence.outcome, Sequence.value, ho, bind, Except.bind, meet_first signs hs]
  exact rest.outcome_eq_value (signs.isScalar_apply hs) h.2.2

theorem Rests.outcome_eq_value (rest : Rests) {lhs : Token} (hl : lhs.isScalar) {inArguments : Bool}
    (h : AllEvery (Token.Answered scope) inArguments rest.tokens) :
    rest.outcome scope ⟨.operand lhs, []⟩ = .ok (.operand (rest.value scope lhs)) ∧
      (rest.value scope lhs).isScalar := by
  match rest with
  | .nil => exact ⟨rfl, hl⟩
  | .binary op hop signs operand rest =>
    rw [Rests.tokens, AllEvery, allEvery_append, AllEvery] at h
    obtain ⟨ho, hs⟩ := operand.outcome_eq_value h.2.2.1
    simp only [Rests.outcome, Rests.value, ho, bind, Except.bind, meet_binary lhs hop signs hs]
    exact rest.outcome_eq_value (isScalar_applyBinary hop _ _) h.2.2.2
  | .adjacent operand rest =>
    rw [Rests.tokens, AllEvery] at h
    obtain ⟨ho, hs⟩ := operand.outcome_eq_value h.1
    simp only [Rests.outcome, Rests.value, ho]
    exact rest.outcome_eq_value (isScalar_mergeAdjacent hl hs) h.2
  | .denied double negated operand rest =>
    rw [Rests.tokens, allEvery_append, AllEvery] at h
    obtain ⟨ho, hs⟩ := operand.outcome_eq_value h.2.1
    simp only [Rests.outcome, Rests.value, ho, bind, Except.bind, meet_denied lhs double negated hs]
    exact rest.outcome_eq_value (isScalar_mergeAdjacent hl (Signs.isScalar_apply _ hs)) h.2.2
  | .conditional whenTrue whenFalse rest =>
    rw [Rests.tokens, AllEvery, Token.Every] at h
    have hbranch {s : Sequence} (hs : s.outcome scope = .ok (.operand (s.value scope))) :
        branchToken? s.isAtom (s.outcome scope) = .ok (some (s.value scope)) := by
      rw [hs]
      cases s.isAtom <;> rfl
    obtain ⟨htrue, hst⟩ := whenTrue.outcome_eq_value h.1.2.1
    obtain ⟨hfalse, hsf⟩ := whenFalse.outcome_eq_value h.1.2.2
    have hchoose (chosen : Token → Except Stop (Option Token)) :
        Phase.choose ⟨.operand lhs, []⟩ chosen = (chosen lhs).map Phase.start.meet := rfl
    simp only [Rests.outcome, Rests.value, hchoose, hbranch htrue, hbranch hfalse]
    split
    · exact rest.outcome_eq_value hst h.2
    · exact rest.outcome_eq_value hsf h.2

theorem Arguments.values_eq_valueList (arguments : Arguments) {inArguments : Bool}
    (h : AllEvery (Token.Answered scope) inArguments arguments.tokens) :
    arguments.values scope = .ok (arguments.valueList scope) := by
  match arguments with
  | .nil => rfl
  | .last argument =>
    rw [Arguments.tokens] at h
    obtain ⟨ho, -⟩ := argument.outcome_eq_value h
    simp only [Arguments.values, Arguments.valueList, ho]
    rfl
  | .more argument rest =>
    rw [Arguments.tokens, allEvery_append, AllEvery] at h
    obtain ⟨ho, -⟩ := argument.outcome_eq_value h.1
    simp only [Arguments.values, Arguments.valueList, ho, rest.values_eq_valueList h.2.2]
    rfl

end

end Answered

/-! A null takes no signs. -/

theorem meet_first_null (ops : List Operator) :
    (Phase.start.after ops).meet (some .undefined) = ⟨.operand .undefined, []⟩ :=
  congrArg (Phase.mk · []) <| congrArg Left.operand (firstOperand_null ops)

theorem meet_null (lhs : Token) (ops : List Operator) (op : Operator) :
    (Phase.after ⟨.operand lhs, []⟩ (ops ++ [op])).meet (some .undefined) =
      ⟨.operand (if op.isBinary then (applyBinary op lhs .undefined).result else lhs), []⟩ :=
  congrArg (Phase.mk · []) <| congrArg Left.operand (nextOperand_null lhs ops op)

/-! Evaluation. -/

/-- What is returned for what is left of a sequence. -/
def Left.returned : Except Stop Left → Token
  | .ok (.operand t) => t
  | _ => .undefined

theorem evaluateTokens_of_outcome {limit : Nat} (scope : Scope) {s : Sequence}
    (hlimit : sequenceNesting s.tokens < limit) (h : s.outcome scope ≠ .error .outside) :
    (evaluateTokens limit scope s.tokens).result =
      (Left.returned (s.outcome scope), scope.store) := by
  obtain ⟨levels, rfl, hn⟩ := exists_below hlimit
  have hm := @meaning_tokens scope (levels + 1) s levels hn h
  have hends := endsWith_drive (Nat.le_refl _) (hm ▸ h)
  rw [hm] at hends
  rw [result_evaluateTokens, splitTarget_tokens, driveRoot]
  generalize (drive (reduce scope (levels + 1) (levels + 1)) (sequenceWeight s.tokens)
    s.tokens).run.result = ended at hends
  generalize s.outcome scope = outcome at hends
  cases hends with
  | @operand t ht => obtain rfl | ⟨_, rfl⟩ | ⟨_, rfl⟩ := value_cases ht <;> rfl
  | nothing | failed => rfl
  | @stray t ht => cases t <;> first | rfl | contradiction

theorem evaluateTokens_of_answered {limit : Nat} {scope : Scope} {s : Sequence}
    (hlimit : sequenceNesting s.tokens < limit)
    (h : AllEvery (Token.Answered scope) false s.tokens) :
    (evaluateTokens limit scope s.tokens).result = (s.value scope, scope.store) := by
  have ho := (s.outcome_eq_value h).1
  rw [evaluateTokens_of_outcome scope hlimit (by simp [ho]), ho]
  rfl

/-- Evaluation of a sequence that is nested less deep than the limit returns what is left of it and
leaves the variables as they are. Where every call gives a number or text, that is the value. A null takes
no signs: in what is left, the operators before a first operand that is null are dropped, and of those
between an operand and a null only the last one counts, if it is binary. -/
theorem evaluateTokens_sequence {limit : Nat} (scope : Scope) {s : Sequence}
    (hlimit : sequenceNesting s.tokens < limit) :
    (s.outcome scope ≠ .error .outside →
      (evaluateTokens limit scope s.tokens).result =
        (Left.returned (s.outcome scope), scope.store)) ∧
    (AllEvery (Token.Answered scope) false s.tokens →
      (evaluateTokens limit scope s.tokens).result = (s.value scope, scope.store)) ∧
    (∀ ops : List Operator,
      (Phase.start.after ops).meet (some .undefined) = ⟨.operand .undefined, []⟩) ∧
    ∀ (lhs : Token) (ops : List Operator) (op : Operator),
      (Phase.after ⟨.operand lhs, []⟩ (ops ++ [op])).meet (some .undefined) =
        ⟨.operand (if op.isBinary then (applyBinary op lhs .undefined).result else lhs), []⟩ :=
  ⟨evaluateTokens_of_outcome scope hlimit, evaluateTokens_of_answered hlimit, meet_first_null,
    meet_null⟩

/-- A function that gives null. -/
def nullScope : Scope := ⟨.ofList [("nul", fun _ => .ok .null)], .empty⟩

/-- A group without a value, whose operator goes to the next, a null joined to a text there, and a
conditional that depends on it; and a call that gives a number. -/
theorem evaluateTokens_conditional :
    let null : Atom := .call "nul" .nil
    let joined : Sequence := .mk (.minus 0) (.text "a") (.binary .cat rfl (.minus 0) null .nil)
    let s : Sequence := .mk (.minus 0) (.group (.mk (.minus 0) null .nil))
      (.binary .add rfl (.minus 0) (.group joined)
        (.conditional (.mk (.minus 0) (.number 1) .nil) (.mk (.minus 0) (.text "b") .nil) .nil))
    let oneScope : Scope := ⟨.ofList [("one", fun _ => .ok (.number 1))], .empty⟩
    let difference : Sequence :=
      .mk (.minus 1) (.call "one" .nil) (.binary .add rfl (.minus 0) (.number 3) .nil)
    (evaluateTokens 8 nullScope s.tokens).result = (.text "b", nullScope.store) ∧
      (evaluateTokens 8 oneScope difference.tokens).result = (.number 2, oneScope.store) := by
  intro null joined s oneScope difference
  have ho : s.outcome nullScope = .ok (.operand (.text "b")) := by rfl
  have houtcome := (evaluateTokens_sequence nullScope (by decide : sequenceNesting s.tokens < 8)).1
    (by rw [ho]; simp)
  have hanswered : AllEvery (Token.Answered oneScope) false difference.tokens := by
    have hone : oneScope.functions.get? "one" = some fun _ => .ok (.number 1) := by rfl
    simp [difference, Sequence.tokens, Rests.tokens, Atom.token, Arguments.tokens, Signs.tokens,
      Signs.operators, AllEvery, Token.Every, Token.Answered, hone, Value.isNull]
  have hvalue := (evaluateTokens_sequence oneScope
    (by decide : sequenceNesting difference.tokens < 8)).2.1 hanswered
  rw [ho] at houtcome
  have htwo : difference.value oneScope = .number 2 := by decide +kernel
  rw [htwo] at hvalue
  exact ⟨houtcome, hvalue⟩

/-- A minus before a null is dropped, and a group without a value is taken out. -/
theorem evaluateTokens_null :
    (evaluateTokens 8 nullScope (Sequence.mk (.minus 1) (.call "nul" .nil) .nil).tokens).result.1 =
      .undefined ∧ negate .undefined ≠ .undefined ∧
    (evaluateTokens 8 nullScope (Sequence.mk (.minus 0) (.text "a") (.binary .cat rfl (.minus 0)
      (.group (.mk (.minus 0) (.call "nul" .nil) .nil)) .nil)).tokens).result.1 = .text "a" ∧
    (applyBinary .cat (.text "a") .undefined).result ≠ .text "a" := by
  refine ⟨by rfl, by decide, by rfl, by decide⟩

end Reckon
