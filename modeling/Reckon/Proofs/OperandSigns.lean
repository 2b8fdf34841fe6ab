import Reckon.Proofs.ReductionWeight

/-!
Operands with the operators before them.

Operators before an operand are its signs, or a binary operator and its signs, and bind it then; of more
operators than that the first are dropped, and a null takes no signs. `foldSign` finds the signs in a
sequence of tokens.
-/

namespace Reckon

/-- Whether a token is read as an operand. -/
def Token.isOperand : Token → Bool
  | .operator _ | .conditional _ _ => false
  | _ => true

/-- The signs of an operand. -/
inductive Signs where
  | minus (count : Nat)
  | denied (double negated : Bool)
deriving Repr, DecidableEq

namespace Signs

def denial (double : Bool) : Operator := if double then .notNot else .not

def operators : Signs → List Operator
  | minus count => .replicate count .sub
  | denied double negated => denial double :: if negated then [.sub] else []

def tokens (signs : Signs) : List Token := signs.operators.map .operator

/-- The signs that operators are, if they are signs of one operand. -/
def ofOperators? : List Operator → Option Signs
  | [.not] => some (denied false false)
  | [.not, .sub] => some (denied false true)
  | [.notNot] => some (denied true false)
  | [.notNot, .sub] => some (denied true true)
  | ops => if ops.all (· = .sub) then some (minus ops.length) else none

/-- A number or text under the signs. -/
def apply : Signs → Token → Token
  | minus count, operand => if count % 2 = 1 then negate operand else operand
  | denied double negated, operand =>
    logicalNot (denial double) (if negated then negate operand else operand)

theorem ofOperators?_operators (signs : Signs) : ofOperators? signs.operators = some signs := by
  cases signs with
  | minus count =>
    have hsigns : ofOperators? (.replicate count .sub) =
        if (List.replicate count Operator.sub).all (· = .sub) then
          some (minus (List.replicate count Operator.sub).length) else none := by
      cases count <;> rfl
    rw [operators, hsigns]
    simp
  | denied double negated => cases double <;> cases negated <;> rfl

theorem isScalar_apply (signs : Signs) {operand : Token} (h : operand.isScalar) :
    (signs.apply operand).isScalar := by
  cases signs with
  | minus count =>
    simp only [apply]
    split
    · rfl
    · exact h
  | denied double negated => exact isScalar_logicalNot _ _

end Signs

/-! An operand with the operators before it. -/

/-- An operand under operators that are its signs. A null has none. -/
def signed? (ops : List Operator) (operand : Token) : Option Token :=
  if operand.isScalar || ops.isEmpty then (Signs.ofOperators? ops).map (·.apply operand) else none

/-- An operand joined to the one before it by the operators between them, if these are signs of the
second or a binary operator and such signs. -/
def joined? (lhs : Token) : List Operator → Token → Option Token
  | [], operand => some (mergeAdjacent lhs operand).result
  | op :: rest, operand =>
    if op.isBinary then (signed? rest operand).map fun rhs => (applyBinary op lhs rhs).result
    else if op.isLogicalNot then
      (signed? (op :: rest) operand).map fun rhs => (mergeAdjacent lhs rhs).result
    else none

/-- The first operand with the operators before it. Those before its signs are dropped. -/
def firstOperand : List Operator → Token → Token
  | [], operand => operand
  | op :: rest, operand => (signed? (op :: rest) operand).getD (firstOperand rest operand)

/-- Two operands with the operators between them. Those before the ones that join them are dropped. -/
def nextOperand (lhs : Token) : List Operator → Token → Token
  | [], operand => (mergeAdjacent lhs operand).result
  | op :: rest, operand => (joined? lhs (op :: rest) operand).getD (nextOperand lhs rest operand)

/-! The signs of numbers and texts, and what stands before a null. -/

theorem signed?_nil (operand : Token) : signed? [] operand = some operand := by
  simp [signed?, Signs.ofOperators?, Signs.apply]

theorem signed?_signs (signs : Signs) {operand : Token} (h : operand.isScalar) :
    signed? signs.operators operand = some (signs.apply operand) := by
  rw [signed?, h, Bool.true_or, if_pos rfl, Signs.ofOperators?_operators, Option.map_some]

theorem firstOperand_signs (signs : Signs) {operand : Token} (h : operand.isScalar) :
    firstOperand signs.operators operand = signs.apply operand := by
  have hsigned := signed?_signs signs h
  cases hops : signs.operators with
  | nil => exact Option.some.inj ((signed?_nil operand).symm.trans (hops ▸ hsigned))
  | cons op rest => rw [firstOperand, ← hops, hsigned, Option.getD_some]

theorem nextOperand_binary (lhs : Token) {op : Operator} (hop : op.isBinary) (signs : Signs)
    {operand : Token} (h : operand.isScalar) :
    nextOperand lhs (op :: signs.operators) operand =
      (applyBinary op lhs (signs.apply operand)).result := by
  rw [nextOperand, joined?, if_pos hop, signed?_signs signs h]
  rfl

theorem nextOperand_denied (lhs : Token) (double negated : Bool) {operand : Token}
    (h : operand.isScalar) :
    nextOperand lhs (Signs.denied double negated).operators operand =
      (mergeAdjacent lhs ((Signs.denied double negated).apply operand)).result := by
  have hsigned := signed?_signs (.denied double negated) h
  cases double <;> exact congrArg (Option.getD · _) (congrArg (Option.map _) hsigned)

theorem signed?_undefined (op : Operator) (rest : List Operator) :
    signed? (op :: rest) .undefined = none := rfl

theorem mergeAdjacent_undefined (lhs : Token) : (mergeAdjacent lhs .undefined).result = lhs := by
  cases lhs <;> rfl

/-- A null takes no signs. -/
theorem firstOperand_null (ops : List Operator) : firstOperand ops .undefined = .undefined := by
  induction ops with
  | nil => rfl
  | cons op rest ih => rw [firstOperand, signed?_undefined, Option.getD_none, ih]

/-- Of the operators before a null only the last one counts, if it is binary. -/
theorem nextOperand_null (lhs : Token) (ops : List Operator) (op : Operator) :
    nextOperand lhs (ops ++ [op]) .undefined =
      if op.isBinary then (applyBinary op lhs .undefined).result else lhs := by
  induction ops with
  | nil =>
    have hlhs := mergeAdjacent_undefined lhs
    cases op <;> first | rfl | exact hlhs
  | cons first rest ih =>
    obtain ⟨next, more, hmore⟩ := List.exists_cons_of_ne_nil (List.concat_ne_nil op rest)
    have hjoined : joined? lhs (first :: (rest ++ [op])) .undefined = none := by
      rw [joined?, hmore, signed?_undefined, signed?_undefined]
      split
      · rfl
      · split <;> rfl
    rw [List.cons_append, nextOperand, hjoined, Option.getD_none, ih]

/-! What operators bind is a value. -/

theorem isValue_signed? {ops : List Operator} {t u : Token} (ht : t.isValue)
    (h : signed? ops t = some u) : u.isValue := by
  cases hs : t.isScalar with
  | true =>
    simp only [signed?, hs, Bool.true_or, if_true] at h
    obtain ⟨signs, -, rfl⟩ := Option.map_eq_some_iff.mp h
    exact Token.isValue_of_isScalar (signs.isScalar_apply hs)
  | false =>
    cases ops with
    | nil => exact Option.some.inj ((signed?_nil t).symm.trans h) ▸ ht
    | cons op ops => simp [signed?, hs] at h

theorem isScalar_mergeAdjacent {first second : Token} (hf : first.isScalar)
    (hs : second.isScalar) : (mergeAdjacent first second).result.isScalar := by
  cases first <;> simp only [Token.isScalar, Bool.false_eq_true] at hf <;>
    cases second <;> simp only [Token.isScalar, Bool.false_eq_true] at hs <;>
    first | rfl | (simp only [mergeAdjacent]; split <;> rfl)

theorem isScalar_applyBinary {op : Operator} (hop : op.isBinary) (lhs rhs : Token) :
    (applyBinary op lhs rhs).result.isScalar := by
  cases op with
  | div =>
    simp only [applyBinary, divide]
    split
    · rfl
    split
    · rfl
    split
    · rfl
    · split <;> rfl
  | mod =>
    simp only [applyBinary, modulo]
    split
    · rfl
    · split <;> rfl
  | add =>
    simp only [applyBinary]
    split <;> rfl
  | eq | ne | lt | le | gt | ge =>
    simp only [applyBinary, Operator.textCounterpart?]
    split <;> rfl
  | or | and | sub | cat | mul | pow | textEq | textNe | textLt | textLe | textGt | textGe => rfl
  | not | notNot | set | comma => contradiction

theorem isValue_mergeAdjacent {first second : Token} (hf : first.isValue) (hs : second.isValue) :
    (mergeAdjacent first second).result.isValue := by
  obtain rfl | ⟨_, rfl⟩ | ⟨_, rfl⟩ := value_cases hf <;>
    obtain rfl | ⟨_, rfl⟩ | ⟨_, rfl⟩ := value_cases hs <;>
    first | rfl | (simp only [mergeAdjacent]; split <;> rfl)

/-! Operators and what they stand before. -/

/-- What may stand after operators, once there is nothing left to replace. -/
inductive AfterOperators : List Token → Prop
  | nil : AfterOperators []
  | value {t : Token} (h : t.isValue) (more : List Token) : AfterOperators (t :: more)
  | conditional (whenTrue whenFalse more : List Token) :
      AfterOperators (.conditional whenTrue whenFalse :: more)

theorem exists_operators {tokens : List Token} (hp : ∀ t ∈ tokens, t.isPlain) :
    ∃ (ops : List Operator) (tail : List Token), tokens = ops.map .operator ++ tail ∧
      AfterOperators tail := by
  induction tokens with
  | nil => exact ⟨[], [], rfl, .nil⟩
  | cons t rest ih =>
    rcases plain_cases (hp t (List.mem_cons_self ..)) with hv | ⟨op, rfl⟩ | ⟨_, _, rfl⟩
    · exact ⟨[], _, rfl, .value hv rest⟩
    · obtain ⟨ops, tail, rfl, htail⟩ := ih fun u hu => hp u (List.mem_cons_of_mem _ hu)
      exact ⟨op :: ops, tail, rfl, htail⟩
    · exact ⟨[], _, rfl, .conditional _ _ rest⟩

theorem takeWhile_minus (ops : List Operator) {tail : List Token} (htail : AfterOperators tail) :
    let tokens := ops.map .operator ++ tail
    if ops.all (· = .sub) then
      (tokens.takeWhile (Token.isOperator .sub)).length = ops.length ∧
        tokens.dropWhile (Token.isOperator .sub) = tail
    else ∃ op more, tokens.dropWhile (Token.isOperator .sub) = .operator op :: more := by
  induction ops with
  | nil =>
    cases htail with
    | nil => exact ⟨rfl, rfl⟩
    | value ht more => obtain rfl | ⟨_, rfl⟩ | ⟨_, rfl⟩ := value_cases ht <;> exact ⟨rfl, rfl⟩
    | conditional => exact ⟨rfl, rfl⟩
  | cons op ops ih =>
    by_cases hop : op = .sub
    · subst hop
      simpa [List.takeWhile_cons, List.dropWhile_cons, Token.isOperator] using ih
    · simp [Token.isOperator, hop]

theorem isLogicalNot_iff {op : Operator} : op.isLogicalNot ↔ op = .not ∨ op = .notNot := by
  cases op <;> simp [Operator.isLogicalNot]

theorem signed?_denial {op : Operator} (hop : op.isLogicalNot) (ops : List Operator)
    (operand : Token) :
    signed? (op :: ops) operand =
      if operand.isScalar then
        match ops with
        | [] => some (logicalNot op operand)
        | [.sub] => some (logicalNot op (negate operand))
        | _ => none
      else none := by
  simp only [signed?, List.isEmpty_cons, Bool.or_false]
  split
  · obtain rfl | rfl := isLogicalNot_iff.mp hop <;>
      match ops with
      | [] => rfl
      | [next] => cases next <;> rfl
      | next :: _ :: _ => cases next <;> rfl
  · rfl

theorem foldSign_denial {op : Operator} (hop : op.isLogicalNot) (next : Token)
    (rest : List Token) :
    foldSign (.operator op :: next :: rest) =
      if next.isScalar then some (logicalNot op next :: rest)
      else match next, rest with
        | .operator .sub, operand :: rest =>
          if operand.isScalar then some (logicalNot op (negate operand) :: rest) else none
        | _, _ => none := by
  obtain rfl | rfl := isLogicalNot_iff.mp hop <;> rfl

theorem signed?_minus (ops : List Operator) (operand : Token) :
    signed? (.sub :: ops) operand =
      if operand.isScalar ∧ ops.all (· = .sub) then
        some (if (ops.length + 1) % 2 = 1 then negate operand else operand)
      else none := by
  have hsigns : Signs.ofOperators? (.sub :: ops) =
      if ops.all (· = .sub) then some (.minus (ops.length + 1)) else none := by
    simp [Signs.ofOperators?]
  rw [signed?, hsigns]
  by_cases hs : operand.isScalar <;> by_cases hall : ops.all (· = .sub) <;> simp_all [Signs.apply]

theorem signed?_none {op : Operator} (hop : ¬op.isSign) (ops : List Operator) (operand : Token) :
    signed? (op :: ops) operand = none := by
  cases op <;> simp_all [Operator.isSign, signed?, Signs.ofOperators?]

/-! The operators at the start of a sequence fold into the operand that they are signs of. -/

/-- What follows operators, with its first operand under them. -/
def folded? (ops : List Operator) (tail : List Token) : Option (List Token) :=
  tail.head?.bind fun t => (signed? ops t).map (· :: tail.tail)

theorem folded?_cases (op : Operator) (ops : List Operator) {tail : List Token}
    (htail : AfterOperators tail) :
    (∃ t more u, tail = t :: more ∧ t.isValue ∧ signed? (op :: ops) t = some u ∧
      folded? (op :: ops) tail = some (u :: more)) ∨
    (∀ t ∈ tail.head?, signed? (op :: ops) t = none) ∧ folded? (op :: ops) tail = none := by
  cases htail with
  | nil => exact .inr ⟨by simp, rfl⟩
  | @value t ht more =>
    cases hsigned : signed? (op :: ops) t with
    | none => exact .inr ⟨by simpa using hsigned, by simp [folded?, hsigned]⟩
    | some u => exact .inl ⟨t, more, u, rfl, ht, hsigned, by simp [folded?, hsigned]⟩
  | conditional whenTrue whenFalse more =>
    have hsigned : signed? (op :: ops) (.conditional whenTrue whenFalse) = none := rfl
    exact .inr ⟨by simpa using hsigned, by simp [folded?, hsigned]⟩

theorem foldSign_minus (ops : List Operator) {tail : List Token} (htail : AfterOperators tail) :
    foldSign (.operator .sub :: (ops.map .operator ++ tail)) =
      folded? (.sub :: ops) tail := by
  have hrun := takeWhile_minus (.sub :: ops) htail
  simp only [List.map_cons, List.cons_append, List.all_cons, decide_true, Bool.true_and,
    List.length_cons] at hrun
  simp only [folded?, signed?_minus]
  rw [foldSign]
  split at hrun
  · rename_i hall
    rw [hrun.1, hrun.2]
    cases htail with
    | nil => rfl
    | @value t ht more => cases hs : t.isScalar <;> simp [hall, hs]
    | conditional => rfl
  · rename_i hall
    obtain ⟨found, more, hfound⟩ := hrun
    rw [hfound]
    cases tail <;> simp [hall, Token.isScalar]

theorem foldSign_denied {op : Operator} (hop : op.isLogicalNot) (ops : List Operator)
    {tail : List Token} (htail : AfterOperators tail) :
    foldSign (.operator op :: (ops.map .operator ++ tail)) =
      folded? (op :: ops) tail := by
  simp only [folded?, signed?_denial hop]
  match ops with
  | [] =>
    cases htail with
    | nil => obtain rfl | rfl := isLogicalNot_iff.mp hop <;> rfl
    | value ht more =>
      rw [List.map_nil, List.nil_append, foldSign_denial hop]
      obtain rfl | ⟨_, rfl⟩ | ⟨_, rfl⟩ := value_cases ht <;> rfl
    | conditional _ _ more => exact foldSign_denial hop _ more
  | [next] =>
    rw [List.map_cons, List.cons_append, foldSign_denial hop, if_neg (by simp [Token.isScalar])]
    cases htail with
    | nil => cases next <;> rfl
    | value ht more =>
      obtain rfl | ⟨_, rfl⟩ | ⟨_, rfl⟩ := value_cases ht <;> cases next <;> rfl
    | conditional _ _ more => cases next <;> rfl
  | next :: second :: ops =>
    rw [List.map_cons, List.cons_append, foldSign_denial hop, if_neg (by simp [Token.isScalar])]
    cases tail <;> simp <;> cases next <;> rfl

theorem foldSign_operators (op : Operator) (ops : List Operator) {tail : List Token}
    (htail : AfterOperators tail) :
    foldSign (.operator op :: (ops.map .operator ++ tail)) =
      folded? (op :: ops) tail := by
  by_cases hsub : op = .sub
  · exact hsub ▸ foldSign_minus ops htail
  by_cases hop : op.isLogicalNot
  · exact foldSign_denied hop ops htail
  · have hsign : ¬op.isSign := by cases op <;> simp_all [Operator.isSign, Operator.isLogicalNot]
    simp only [folded?, signed?_none hsign]
    cases op <;> cases ops <;> cases tail <;> simp_all [foldSign, Operator.isLogicalNot]

end Reckon
