import Reckon.Proofs.NestingLimit

/-!
Evaluation with the operations on operands given from outside.

Operators do four things to operands: they combine two of them, change a sign, take a truth value, or
join two that stand side by side. Here these four are a parameter, so what evaluation does to which
operands can be told from what the parameter has to be where.
-/

namespace Reckon

/-- An operation, with the operands it is performed on. -/
inductive Application where
  | binary (op : Operator) (lhs rhs : Token)
  | negate (operand : Token)
  | logicalNot (op : Operator) (operand : Token)
  | merge (first second : Token)

namespace Application

def operands : Application → List Token
  | binary _ lhs rhs => [lhs, rhs]
  | negate operand | logicalNot _ operand => [operand]
  | merge first second => [first, second]

/-- Whether all operands are values. -/
def isReduced (a : Application) : Bool := a.operands.all Token.isValue

/-- The operation as evaluation performs it. -/
def perform : Application → Reported Token
  | binary op lhs rhs => applyBinary op lhs rhs
  | negate operand => pure (Reckon.negate operand)
  | logicalNot op operand => pure (Reckon.logicalNot op operand)
  | merge first second => mergeAdjacent first second

end Application

/-- A way to perform all operations. -/
abbrev Operations := Application → Reported Token

/-- The signs at the start of a sequence applied to the operand after them, if there is one. -/
def foldSignWith (ops : Operations) (tokens : List Token) : Option (Reported (List Token)) :=
  match tokens with
  | .operator .sub :: _ =>
    let signs := tokens.takeWhile (Token.isOperator .sub)
    match tokens.dropWhile (Token.isOperator .sub) with
    | operand :: rest =>
      if operand.isScalar then
        some ((· :: rest) <$> if signs.length % 2 = 1 then ops (.negate operand) else pure operand)
      else none
    | [] => none
  | .operator op :: next :: rest =>
    if op.isLogicalNot then
      if next.isScalar then some ((· :: rest) <$> ops (.logicalNot op next))
      else match next, rest with
        | .operator .sub, operand :: rest =>
          if operand.isScalar then
            some ((· :: rest) <$> (ops (.negate operand) >>= (ops <| .logicalNot op ·)))
          else none
        | _, _ => none
    else none
  | _ => none

/-- What a binary operator makes of its left operand and what follows it, signs folded. -/
def applyToOperandsWith (ops : Operations) (lhs : Token) (op : Operator) :
    List Token → Reported (List Token)
  | .operator found :: more => do
    report (.operatorForRight op found)
    pure (lhs :: .operator found :: more)
  | rhs :: more => (· :: more) <$> ops (.binary op lhs rhs)
  | [] => pure [lhs]

/-- An operator applied after its left operand. -/
def applyOperatorWith (ops : Operations) (lhs : Token) (op : Operator) (rest : List Token) :
    Reported (List Token) :=
  match rest with
  | [] => do
    report (.missingRight op)
    pure [lhs]
  | _ :: _ =>
    match op with
    | .not | .notNot =>
      match foldSignWith ops (.operator op :: rest) with
      | some folded => (lhs :: ·) <$> folded
      | none => do
        report (.nothingToNegate op)
        pure (lhs :: rest)
    | .set | .comma => do
      report (.unexpectedOperator op)
      pure (lhs :: rest)
    | _ => (foldSignWith ops rest).getD (pure rest) >>= applyToOperandsWith ops lhs op

/-- The first operand of a sequence combined with what follows it. -/
def applyFirstWith (ops : Operations) (tokens : List Token) : Reported Step :=
  match tokens with
  | [] => pure .stalled
  | .operator op :: rest =>
    if op.isSign && rest.isEmpty then do
      report (.signWithoutValue op)
      pure (.progressed [.number 0.0])
    else match (if op.isSign then foldSignWith ops tokens else none) with
      | some folded => .progressed <$> folded
      | none => do
        report (.missingLeft op)
        pure (.progressed rest)
  | .conditional _ _ :: rest => do
    report .noCondition
    pure (.progressed rest)
  | [_] => pure .stalled
  | first :: .conditional whenTrue whenFalse :: rest =>
    pure (.progressed (chooseBranch first whenTrue whenFalse :: rest))
  | first :: .operator op :: rest => .progressed <$> applyOperatorWith ops first op rest
  | first :: second :: rest => (.progressed <| · :: rest) <$> ops (.merge first second)

section Step

variable {ops : Operations} {tokens : List Token}

theorem isReduced_negate {t : Token} (h : t.isScalar) : (Application.negate t).isReduced := by
  cases t <;> simp_all [Token.isScalar, Application.isReduced, Application.operands, Token.isValue]

theorem isReduced_logicalNot (op : Operator) {t : Token} (h : t.isScalar) :
    (Application.logicalNot op t).isReduced := by
  cases t <;> simp_all [Token.isScalar, Application.isReduced, Application.operands, Token.isValue]

/-- The operand after minuses is negated only if it is a scalar. -/
theorem foldSignWith_minus (hops : ∀ a, a.isReduced → ops a = a.perform) (rest : List Token) :
    foldSignWith ops (.operator .sub :: rest) = (foldSign (.operator .sub :: rest)).map pure := by
  simp only [foldSignWith, foldSign]
  cases (Token.operator .sub :: rest).dropWhile (Token.isOperator .sub) with
  | nil => rfl
  | cons operand more =>
    cases hscalar : operand.isScalar with
    | false => simp [hscalar]
    | true =>
      have hneg : ops (.negate operand) = pure (Reckon.negate operand) :=
        hops _ (isReduced_negate hscalar)
      simp only [hscalar, hneg, if_true]
      split <;> rfl

/-- The operand after a denial, or after the minus that follows it, is denied only if it is a
scalar. -/
theorem foldSignWith_denial (hops : ∀ a, a.isReduced → ops a = a.perform) {op : Operator}
    (hop : op ≠ .sub) (next : Token) (rest : List Token) :
    foldSignWith ops (.operator op :: next :: rest) =
      (foldSign (.operator op :: next :: rest)).map pure := by
  have hnot {t : Token} (h : t.isScalar) :
      ops (.logicalNot op t) = pure (Reckon.logicalNot op t) :=
    hops _ (isReduced_logicalNot op h)
  simp only [foldSignWith, foldSign]
  cases op.isLogicalNot with
  | false => rfl
  | true =>
    cases hnext : next.isScalar with
    | true => simp [hnot hnext]
    | false =>
      cases next with
      | operator found =>
        cases found with
        | sub =>
          cases rest with
          | nil => rfl
          | cons operand more =>
            cases hscalar : operand.isScalar with
            | false => simp [hscalar]
            | true =>
              have hneg : ops (.negate operand) = pure (Reckon.negate operand) :=
                hops _ (isReduced_negate hscalar)
              simp [hscalar, hneg, hnot (rfl : (Reckon.negate _).isScalar)]
        | _ => rfl
      | number _ | text _ => contradiction
      | _ => rfl

/-- Signs are applied to scalars only. -/
theorem foldSignWith_eq (hops : ∀ a, a.isReduced → ops a = a.perform) (tokens : List Token) :
    foldSignWith ops tokens = (foldSign tokens).map pure := by
  cases tokens with
  | nil => rfl
  | cons t rest =>
    cases t with
    | operator op =>
      by_cases hsub : op = .sub
      · subst hsub
        exact foldSignWith_minus hops rest
      · cases rest with
        | nil => cases op <;> rfl
        | cons next rest => exact foldSignWith_denial hops hsub next rest
    | _ => rfl

theorem applyToOperandsWith_eq {lhs : Token} {op : Operator} {operands : List Token}
    (h : ∀ rhs more, operands = rhs :: more → (∀ found, rhs ≠ .operator found) →
      ops (.binary op lhs rhs) = applyBinary op lhs rhs) :
    applyToOperandsWith ops lhs op operands = applyToOperands lhs op operands := by
  cases operands with
  | nil => rfl
  | cons rhs more =>
    cases rhs with
    | operator found => rfl
    | _ => exact congrArg ((· :: more) <$> ·) (h _ more rfl nofun)

/-- Whether the operation is a binary one of a value and a conditional. -/
def Application.joinsConditional : Application → Bool
  | binary op lhs (.conditional _ _) => op.isBinary && lhs.isValue
  | _ => false

/-- Whether the operation joins the first operand of the sequence to a conditional. -/
def JoinsConditional (tokens : List Token) (a : Application) : Prop :=
  ∃ op lhs rhs rest, tokens = lhs :: .operator op :: rhs :: rest ∧ a = .binary op lhs rhs ∧
    a.joinsConditional

theorem applyOperatorWith_eq (hops : ∀ a, a.isReduced → ops a = a.perform) {lhs : Token}
    {op : Operator} (hlhs : lhs.isValue) {rest : List Token} (hp : ∀ t ∈ rest, t.isPlain)
    (hjoin : ∀ a, JoinsConditional (lhs :: .operator op :: rest) a → ops a = a.perform) :
    applyOperatorWith ops lhs op rest = applyOperator lhs op rest := by
  cases rest with
  | nil => rfl
  | cons t more =>
    have hsigns := foldSignWith_eq hops (.operator op :: t :: more)
    have hoperands : (foldSignWith ops (t :: more)).getD (pure (t :: more)) =
        pure ((foldSign (t :: more)).getD (t :: more)) := by
      rw [foldSignWith_eq hops]
      cases foldSign (t :: more) <;> rfl
    have hbinary (hop : op.isBinary) :
        (foldSignWith ops (t :: more)).getD (pure (t :: more)) >>= applyToOperandsWith ops lhs op =
          applyToOperands lhs op ((foldSign (t :: more)).getD (t :: more)) := by
      rw [hoperands, pure_bind]
      refine applyToOperandsWith_eq fun rhs after hafter hnot => ?_
      have hreduced (h : rhs.isValue) : ops (.binary op lhs rhs) = applyBinary op lhs rhs :=
        hops (.binary op lhs rhs) (by simp [Application.isReduced, Application.operands, hlhs, h])
      cases hfold : foldSign (t :: more) with
      | some folded =>
        obtain ⟨signs, operand, signed, rest, -, -, rfl, -, hsigned⟩ := foldSign_cases hfold
        rw [hfold, Option.getD_some] at hafter
        obtain ⟨rfl, -⟩ := List.cons.inj hafter
        refine hreduced ?_
        cases signed <;> simp_all [Token.isScalar, Token.isValue]
      | none =>
        rw [hfold, Option.getD_none] at hafter
        obtain ⟨rfl, rfl⟩ := List.cons.inj hafter
        have hplain := hp t List.mem_cons_self
        cases t with
        | undefined | number _ | text _ => exact hreduced rfl
        | operator found => exact absurd rfl (hnot found)
        | conditional whenTrue whenFalse =>
          have hconditional : (Application.binary op lhs
              (.conditional whenTrue whenFalse)).joinsConditional := by
            simp [Application.joinsConditional, hop, hlhs]
          exact hjoin _ ⟨op, lhs, _, more, rfl, rfl, hconditional⟩
        | name _ | call _ _ | group _ => contradiction
    cases op with
    | not | notNot =>
      unfold applyOperatorWith applyOperator
      dsimp only
      rw [hsigns]
      cases foldSign (.operator _ :: t :: more) <;> simp
    | set | comma => rfl
    | _ => exact hbinary rfl

/-- What follows a value is combined with it by operations on values only, unless it is joined to a
conditional. -/
theorem applyFirstWith_value (hops : ∀ a, a.isReduced → ops a = a.perform) {first : Token}
    (hfirst : first.isValue) {rest : List Token} (hp : ∀ t ∈ rest, t.isPlain)
    (hjoin : ∀ a, JoinsConditional (first :: rest) a → ops a = a.perform) :
    applyFirstWith ops (first :: rest) = applyFirst (first :: rest) := by
  cases rest with
  | nil => cases first <;> first | rfl | contradiction
  | cons second more =>
    have hsecond := hp second List.mem_cons_self
    have hmerge (h : second.isValue) : ops (.merge first second) = mergeAdjacent first second :=
      hops (.merge first second) (by simp [Application.isReduced, Application.operands, hfirst, h])
    have hoperator (op : Operator) (heq : second = .operator op) :
        applyOperatorWith ops first op more = applyOperator first op more :=
      applyOperatorWith_eq hops hfirst (fun t ht => hp t (List.mem_cons_of_mem _ ht)) (heq ▸ hjoin)
    cases second with
    | conditional whenTrue whenFalse => cases first <;> first | rfl | contradiction
    | operator op =>
      have := congrArg (Step.progressed <$> ·) (hoperator op rfl)
      cases first <;> first | exact this | contradiction
    | undefined | number _ | text _ =>
      have := congrArg ((Step.progressed <| · :: more) <$> ·) (hmerge rfl)
      cases first <;> first | exact this | contradiction
    | name _ | call _ _ | group _ => contradiction

/-- Combining the first operand performs operations on values only, unless it joins one to a
conditional. -/
theorem applyFirstWith_eq (hops : ∀ a, a.isReduced → ops a = a.perform)
    (hp : ∀ t ∈ tokens, t.isPlain) (hjoin : ∀ a, JoinsConditional tokens a → ops a = a.perform) :
    applyFirstWith ops tokens = applyFirst tokens := by
  cases tokens with
  | nil => rfl
  | cons first rest =>
    have hfirst := hp first List.mem_cons_self
    have hrest := fun t ht => hp t (List.mem_cons_of_mem _ ht)
    cases first with
    | undefined | number _ | text _ => exact applyFirstWith_value hops rfl hrest hjoin
    | conditional whenTrue whenFalse => rfl
    | operator op =>
      simp only [applyFirstWith, applyFirst, foldSignWith_eq hops]
      cases op.isSign with
      | false => rfl
      | true => cases foldSign (.operator op :: rest) <;> rfl
    | name _ | call _ _ | group _ => contradiction

/-- Performed as they are, the operations are those of evaluation itself. -/
theorem applyFirstWith_perform (hp : ∀ t ∈ tokens, t.isPlain) :
    applyFirstWith Application.perform tokens = applyFirst tokens :=
  applyFirstWith_eq (fun _ _ => rfl) hp fun _ _ => rfl

end Step

/-! Evaluation with another way to combine operands. -/

/-- One step, with operands combined by `combine`. -/
def stepBy (combine : List Token → Reported Step) (scope : Scope) (settle : Settle)
    (tokens : List Token) : Attempt Step := do
  match ← rewriteTokens scope settle tokens with
  | some tokens => return .progressed tokens
  | none => combine tokens

/-- One step of a sequence with so many levels of nesting left, its own included. -/
def reduceBy (combine : List Token → Reported Step) (scope : Scope) (limit : Nat) :
    Nat → List Token → Attempt Step
  | 0, _ => throw (.nestingTooDeep limit)
  | levels + 1, tokens =>
    stepBy combine scope
      (fun place inner =>
        settleWith (reduceBy combine scope limit levels) place (sequenceWeight inner) inner)
      tokens

/-- The result of a sequence and the variables after it, with the operations given. -/
def evaluateWith (ops : Operations) (limit : Nat) (scope : Scope) (tokens : List Token) :
    Reported (Token × Table Value) :=
  let (target, body) := splitTarget tokens
  (drive (reduceBy (applyFirstWith ops) scope limit limit) (sequenceWeight body) body).run >>=
    fun outcome => conclude target.isSome outcome >>= assign scope.store target

/-- Sequences whose first operand is combined when `tokens` are reduced with so many levels. -/
inductive Combines (scope : Scope) (limit : Nat) : Nat → List Token → List Token → Prop where
  | here {levels : Nat} {tokens : List Token} :
      needsReduction tokens →
      (rewriteTokens scope (settleAt scope limit levels) tokens).run.result = .ok none →
      Combines scope limit (levels + 1) tokens tokens
  | inside {levels : Nat} {tokens inner current : List Token} {place : Place} :
      needsReduction tokens →
      Delegates scope (settleAt scope limit levels) tokens place inner →
      Combines scope limit levels inner current → Combines scope limit (levels + 1) tokens current
  | later {levels : Nat} {tokens after current : List Token} :
      needsReduction tokens →
      (reduce scope limit levels tokens).run.result = .ok (.progressed after) →
      Combines scope limit levels after current → Combines scope limit levels tokens current

section Runs

variable {combine : List Token → Reported Step} {scope : Scope} {limit levels : Nat}
  {tokens current : List Token}

theorem Combines.plain (h : Combines scope limit levels tokens current) :
    ∀ t ∈ current, t.isPlain := by
  induction h with
  | here _ hnone =>
    rcases rewriteTokens_cases hnone with ⟨after, hafter, -⟩ | ⟨-, hsettled⟩
    · contradiction
    · exact hsettled.plain
  | inside _ _ _ ih | later _ _ _ ih => exact ih

/-- A step is the same if it does the same with sequences inside its own and with its own operands. -/
theorem stepBy_eq {settle settle' : Settle}
    (hsettle : ∀ place inner, Delegates scope settle tokens place inner →
      settle place inner = settle' place inner)
    (hcombine : (rewriteTokens scope settle tokens).run.result = .ok none →
      combine tokens = applyFirst tokens) :
    stepBy combine scope settle' tokens = stepWith scope settle tokens := by
  unfold stepBy stepWith
  refine (Attempt.bind_congr (rewriteTokens_congr hsettle) fun outcome houtcome => ?_).symm
  cases outcome with
  | some after => rfl
  | none => exact congrArg liftM (hcombine houtcome).symm

/-- A run is the same if operands are combined the same wherever it combines any. -/
theorem drive_reduceBy_eq
    (h : ∀ current, Combines scope limit levels tokens current →
      combine current = applyFirst current)
    (fuel : Nat) :
    drive (reduceBy combine scope limit levels) fuel tokens =
        drive (reduce scope limit levels) fuel tokens ∧
      ∀ place, settleWith (reduceBy combine scope limit levels) place fuel tokens =
        settleWith (reduce scope limit levels) place fuel tokens := by
  induction levels generalizing fuel tokens with
  | zero =>
    have hstep : reduceBy combine scope limit 0 = reduce scope limit 0 := by
      funext tokens
      rw [reduceBy, reduce]
    simp only [hstep, implies_true, and_self]
  | succ levels ih =>
    induction fuel generalizing tokens with
    | zero => simp [drive, settleWith]
    | succ fuel ihfuel =>
      cases hn : needsReduction tokens with
      | false => simp [drive, settleWith, hn]
      | true =>
        have hstep : reduceBy combine scope limit (levels + 1) tokens =
            reduce scope limit (levels + 1) tokens := by
          rw [reduceBy, reduce]
          refine stepBy_eq (fun place inner hdelegates => ?_) fun hnone => h tokens (.here hn hnone)
          exact ((ih (fun current hc => h current (.inside hn hdelegates hc)) _).2 place).symm
        have hafter (after : List Token)
            (ha : (reduce scope limit (levels + 1) tokens).run.result = .ok (.progressed after)) :=
          ihfuel fun current hc => h current (.later hn ha hc)
        simp only [drive, settleWith, hn, if_true, hstep]
        refine ⟨Attempt.bind_congr rfl fun step ha => ?_, fun place => ?_⟩
        · cases step with
          | stalled => rfl
          | progressed after => exact (hafter after ha).1
        · apply Reported.bind_congr
          cases ha : (reduce scope limit (levels + 1) tokens).run.result with
          | error failure => rfl
          | ok step =>
            cases step with
            | stalled => rfl
            | progressed after => exact (hafter after ha).2 place

end Runs

/-- Other operations make no difference if they are the same on values, and wherever the run joins an
operand to a conditional. -/
theorem evaluateWith_eq {ops : Operations} {limit : Nat} {scope : Scope} {tokens : List Token}
    (hops : ∀ a, a.isReduced → ops a = a.perform)
    (hjoin : ∀ current, Combines scope limit limit (splitTarget tokens).2 current →
      ∀ a, JoinsConditional current a → ops a = a.perform) :
    evaluateWith ops limit scope tokens = evaluateTokens limit scope tokens := by
  have hdrive := (@drive_reduceBy_eq (applyFirstWith ops) scope limit limit (splitTarget tokens).2
    (fun current hc => applyFirstWith_eq hops hc.plain (hjoin current hc))
    (sequenceWeight (splitTarget tokens).2)).1
  rw [evaluateTokens_eq]
  unfold evaluateWith
  dsimp only
  rw [hdrive]

/-- With the operations as they are this is evaluation itself. -/
theorem evaluateWith_perform (limit : Nat) (scope : Scope) (tokens : List Token) :
    evaluateWith Application.perform limit scope tokens = evaluateTokens limit scope tokens :=
  evaluateWith_eq (fun _ _ => rfl) fun _ _ _ _ => rfl

end Reckon
