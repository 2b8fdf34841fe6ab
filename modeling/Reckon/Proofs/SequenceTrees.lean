import Reckon.Proofs.OperandSigns

/-!
Sequences of operands, as trees.

A sequence is an operand followed by others with or without a binary operator before them, and by
conditionals on what comes before. The trees have the grammar in their constructors, so that what is
defined by recursion on them needs no case for operators in the wrong place.
-/

namespace Reckon

mutual

inductive Atom where
  | number (n : Float)
  | text (s : String)
  | name (s : String)
  | group (inner : Sequence)
  | call (name : String) (arguments : Arguments)

inductive Sequence where
  | mk (signs : Signs) (first : Atom) (rest : Rests)

/-- What may follow an operand. An operand without an operator before it has no minus before its other
signs: that would be an operator. -/
inductive Rests where
  | nil
  | binary (op : Operator) (h : op.isBinary) (signs : Signs) (operand : Atom) (rest : Rests)
  | adjacent (operand : Atom) (rest : Rests)
  | denied (double negated : Bool) (operand : Atom) (rest : Rests)
  | conditional (whenTrue whenFalse : Sequence) (rest : Rests)

/-- Arguments with a separator between any two of them, and maybe one at the end. -/
inductive Arguments where
  | nil
  | last (argument : Sequence)
  | more (argument : Sequence) (rest : Arguments)

end

mutual

def Atom.token : Atom → Token
  | .number n => .number n
  | .text s => .text s
  | .name s => .name s
  | .group inner => .group inner.tokens
  | .call s arguments => .call s arguments.tokens

def Sequence.tokens : Sequence → List Token
  | .mk signs first rest => signs.tokens ++ first.token :: rest.tokens

def Rests.tokens : Rests → List Token
  | .nil => []
  | .binary op _ signs operand rest =>
    .operator op :: (signs.tokens ++ operand.token :: rest.tokens)
  | .adjacent operand rest => operand.token :: rest.tokens
  | .denied double negated operand rest =>
    (Signs.denied double negated).tokens ++ operand.token :: rest.tokens
  | .conditional whenTrue whenFalse rest =>
    .conditional whenTrue.tokens whenFalse.tokens :: rest.tokens

def Arguments.tokens : Arguments → List Token
  | .nil => []
  | .last argument => argument.tokens
  | .more argument rest => argument.tokens ++ .operator .comma :: rest.tokens

end

/-- Whether a sequence is a single token. -/
def Sequence.isAtom : Sequence → Bool
  | .mk (.minus 0) _ .nil => true
  | _ => false

theorem Atom.token_ne_operator (a : Atom) (op : Operator) : a.token ≠ .operator op := by
  cases a <;> simp [token]

theorem Atom.isOperand_token (a : Atom) : a.token.isOperand := by
  cases a <;> rfl

theorem Atom.isOperator_token (a : Atom) (op : Operator) : a.token.isOperator op = false := by
  cases a <;> rfl

theorem Signs.isOperator_comma (signs : Signs) :
    ∀ t ∈ signs.tokens, t.isOperator .comma = false := by
  intro t ht
  obtain ⟨op, hop, rfl⟩ := List.mem_map.mp ht
  cases signs with
  | minus count =>
    obtain rfl := List.eq_of_mem_replicate hop
    rfl
  | denied double negated =>
    cases double <;> cases negated <;> simp [operators, denial] at hop <;>
      first
        | (subst hop; rfl)
        | (rcases hop with rfl | rfl <;> rfl)

theorem Rests.isOperator_comma (rest : Rests) : ∀ t ∈ rest.tokens, t.isOperator .comma = false := by
  intro t ht
  match rest with
  | .nil => simp [tokens] at ht
  | .binary op h signs operand rest =>
    rcases List.mem_cons.mp ht with rfl | ht
    · cases op <;> first | rfl | simp [Operator.isBinary] at h
    · rcases List.mem_append.mp ht with ht | ht
      · exact signs.isOperator_comma t ht
      · rcases List.mem_cons.mp ht with rfl | ht
        · exact operand.isOperator_token .comma
        · exact rest.isOperator_comma t ht
  | .adjacent operand rest =>
    rcases List.mem_cons.mp ht with rfl | ht
    · exact operand.isOperator_token .comma
    · exact rest.isOperator_comma t ht
  | .denied double negated operand rest =>
    rcases List.mem_append.mp ht with ht | ht
    · exact (Signs.denied double negated).isOperator_comma t ht
    · rcases List.mem_cons.mp ht with rfl | ht
      · exact operand.isOperator_token .comma
      · exact rest.isOperator_comma t ht
  | .conditional whenTrue whenFalse rest =>
    rcases List.mem_cons.mp ht with rfl | ht
    · rfl
    · exact rest.isOperator_comma t ht

theorem Sequence.isOperator_comma (s : Sequence) :
    ∀ t ∈ s.tokens, t.isOperator .comma = false := by
  intro t ht
  obtain ⟨signs, first, rest⟩ := s
  rcases List.mem_append.mp ht with ht | ht
  · exact signs.isOperator_comma t ht
  · rcases List.mem_cons.mp ht with rfl | ht
    · exact first.isOperator_token .comma
    · exact rest.isOperator_comma t ht

theorem Sequence.tokens_ne_nil (s : Sequence) : s.tokens ≠ [] := by
  obtain ⟨signs, first, rest⟩ := s
  simp [tokens]

theorem Sequence.eq_of_isAtom {s : Sequence} (h : s.isAtom) :
    ∃ a, s = .mk (.minus 0) a .nil := by
  unfold isAtom at h
  split at h
  · exact ⟨_, rfl⟩
  · simp at h

theorem Sequence.long_of_not_isAtom {s : Sequence} (h : s.isAtom = false) : 1 < s.tokens.length := by
  obtain ⟨signs, first, rest⟩ := s
  have hsigns : signs.tokens.length = 0 → signs = .minus 0 := by
    cases signs with
    | minus count => simp [Signs.tokens, Signs.operators]
    | denied double negated => simp [Signs.tokens, Signs.operators]
  have hrest : rest.tokens.length = 0 → rest = .nil := by
    cases rest <;> simp [Rests.tokens, Signs.tokens, Signs.operators]
  simp only [tokens, List.length_append, List.length_cons]
  by_cases h₁ : signs.tokens.length = 0
  · by_cases h₂ : rest.tokens.length = 0
    · obtain rfl := hsigns h₁
      obtain rfl := hrest h₂
      simp [isAtom] at h
    · omega
  · omega

/-- No sequence of this form is an assignment. -/
theorem splitTarget_tokens (s : Sequence) : splitTarget s.tokens = (none, s.tokens) := by
  obtain ⟨signs, first, rest⟩ := s
  have hrest : ∀ more, rest.tokens ≠ .operator .set :: more := by
    intro more h
    cases rest with
    | nil => simp [Rests.tokens] at h
    | binary op hop signs operand rest =>
      obtain rfl := Token.operator.inj (List.cons.inj h).1
      simp [Operator.isBinary] at hop
    | adjacent operand rest => exact operand.token_ne_operator _ (List.cons.inj h).1
    | denied double negated operand rest =>
      have hop := Token.operator.inj (List.cons.inj h).1
      cases double <;> simp [Signs.denial] at hop
    | conditional whenTrue whenFalse rest => simp [Rests.tokens] at h
  unfold splitTarget
  split
  · rename_i t more ht
    cases signs with
    | minus count =>
      cases count with
      | zero => exact absurd (List.cons.inj ht).2 (hrest more)
      | succ count => simp [Sequence.tokens, Signs.tokens, Signs.operators, List.replicate_succ] at ht
    | denied double negated => simp [Sequence.tokens, Signs.tokens, Signs.operators] at ht
  · rfl

end Reckon
