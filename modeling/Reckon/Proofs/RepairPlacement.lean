import Mathlib.Data.List.Basic
import Reckon.Assignment
import Reckon.Proofs.TokenTree

/-!
Where repair leaves assignments and separators.

A sequence is placed if its `=` stands only where an assignment may, and the separators of its calls
never follow an empty argument. Repair makes every sequence a placed one and changes nothing about a
placed one. Both are by induction on the tokens that are left, with those before them placed.
-/

namespace Reckon

/-- Whether an `=` may stay after these tokens, the last first: after one name, at the root. -/
def MayAssign (root : Bool) (before : List Token) : Prop :=
  root = true ∧ ∃ target, before = [target] ∧ isTarget target = true

mutual

/-- Whether the sequences in a token are placed. -/
def Token.Placed : Token → Prop
  | .group inner => SequencePlaced false [] inner
  | .conditional whenTrue whenFalse =>
    SequencePlaced false [] whenTrue ∧ SequencePlaced false [] whenFalse
  | .call _ arguments => ArgumentsPlaced [] arguments
  | _ => True

/-- Whether a sequence is placed after the tokens before it, the last first. -/
def SequencePlaced (root : Bool) (before : List Token) : List Token → Prop
  | [] => True
  | t :: rest => (t = .operator .set → MayAssign root before) ∧ t.Placed ∧
    SequencePlaced root (t :: before) rest

def ArgumentsPlaced (before : List Token) : List Token → Prop
  | [] => True
  | t :: rest => t ≠ .operator .set ∧ (t = .operator .comma → endsOpen before = false) ∧ t.Placed ∧
    ArgumentsPlaced (t :: before) rest

end

theorem sequencePlaced_nil {root : Bool} {before : List Token} : SequencePlaced root before [] := by
  simp only [SequencePlaced]

theorem argumentsPlaced_nil {before : List Token} : ArgumentsPlaced before [] := by
  simp only [ArgumentsPlaced]

theorem sequencePlaced_append {root : Bool} {before ts us : List Token} :
    SequencePlaced root before (ts ++ us) ↔
      SequencePlaced root before ts ∧ SequencePlaced root (ts.reverse ++ before) us := by
  induction ts generalizing before with
  | nil => simp [SequencePlaced]
  | cons t ts ih => simp [SequencePlaced, ih, and_assoc]

theorem argumentsPlaced_append {before ts us : List Token} :
    ArgumentsPlaced before (ts ++ us) ↔
      ArgumentsPlaced before ts ∧ ArgumentsPlaced (ts.reverse ++ before) us := by
  induction ts generalizing before with
  | nil => simp [ArgumentsPlaced]
  | cons t ts ih => simp [ArgumentsPlaced, ih, and_assoc]

theorem sequencePlaced_snoc {root : Bool} {before : List Token} {t : Token} :
    SequencePlaced root [] (t :: before).reverse ↔ SequencePlaced root [] before.reverse ∧
      (t = .operator .set → MayAssign root before) ∧ t.Placed := by
  simp [List.reverse_cons, sequencePlaced_append, SequencePlaced]

theorem argumentsPlaced_snoc {before : List Token} {t : Token} :
    ArgumentsPlaced [] (t :: before).reverse ↔ ArgumentsPlaced [] before.reverse ∧
      t ≠ .operator .set ∧ (t = .operator .comma → endsOpen before = false) ∧ t.Placed := by
  simp [List.reverse_cons, argumentsPlaced_append, ArgumentsPlaced]

/-! What becomes of an `=`. -/

/-- Whether a sequence begins with an assignment that may stay. -/
def assigns (root : Bool) : List Token → Bool
  | target :: next :: _ => root && isTarget target && next.isOperator .set
  | _ => false

theorem placeAssignment_eq (source : String) (root : Bool) (before rest : List Token) :
    placeAssignment source root before =
      if assigns root (before.reverse ++ .operator .set :: rest) then
        if before.length = 1 then pure ⟨.operator .set :: before, true⟩
        else do
          report (.chainedAssignment source)
          pure ⟨before, true⟩
      else placeAssignment.misplaced source before := by
  have hlength : before.length = before.reverse.length := List.length_reverse.symm
  rw [hlength]
  unfold placeAssignment
  split
  · rename_i target hbefore
    simp only [hbefore, List.singleton_append, assigns, isOperator_operator, Bool.true_and,
      Bool.and_true, List.length_singleton, if_true]
  · rename_i target older hbefore
    simp only [hbefore, List.cons_append, assigns, isOperator_operator, Bool.true_and, Bool.and_true,
      List.length_cons, Nat.add_eq_right, Nat.add_eq_zero_iff, Nat.succ_ne_self, and_false, if_false]
  · rename_i hone hmore
    rw [if_neg]
    intro h
    unfold assigns at h
    split at h
    · rename_i target next more htokens
      simp only [Bool.and_eq_true] at h
      obtain ⟨⟨rfl, htarget⟩, hnext⟩ := h
      cases hbefore : before.reverse with
      | nil =>
        rw [hbefore] at htokens
        obtain ⟨rfl, -⟩ := List.cons.inj htokens
        contradiction
      | cons u us =>
        rw [hbefore] at htokens
        obtain ⟨rfl, hus⟩ := List.cons.inj htokens
        cases us with
        | nil => exact hone u rfl hbefore
        | cons v vs =>
          obtain ⟨rfl, -⟩ := List.cons.inj hus
          exact hmore u vs rfl (eq_of_isOperator hnext ▸ hbefore)
    · contradiction

theorem mayAssign_of_assigns {root : Bool} {before rest : List Token}
    (h : assigns root (before.reverse ++ .operator .set :: rest)) (hlength : before.length = 1) :
    MayAssign root before := by
  obtain ⟨target, rfl⟩ := List.length_eq_one_iff.mp hlength
  simp only [List.reverse_singleton, List.singleton_append, assigns, Bool.and_eq_true] at h
  exact ⟨h.1.1, target, rfl, h.1.2⟩

theorem MayAssign.assigns {root : Bool} {before : List Token} (h : MayAssign root before)
    (rest : List Token) : Reckon.assigns root (before.reverse ++ .operator .set :: rest) := by
  obtain ⟨rfl, target, rfl, htarget⟩ := h
  simpa [Reckon.assigns, isOperator_operator] using htarget

theorem placed_dropLeft {root : Bool} {before : List Token}
    (h : SequencePlaced root [] before.reverse) :
    SequencePlaced root [] (dropLeft before).reverse := by
  unfold dropLeft
  split
  · exact h
  · exact (sequencePlaced_snoc.mp h).1
  · exact h

theorem placed_placeAssignment {root : Bool} {before : List Token} (source : String)
    (h : SequencePlaced root [] before.reverse) :
    SequencePlaced root [] (placeAssignment source root before).result.value.reverse := by
  rw [placeAssignment_eq source root before []]
  split
  · rename_i hassigns
    split
    · rename_i hlength
      have hplaced : (Token.operator .set).Placed := by simp only [Token.Placed]
      exact sequencePlaced_snoc.mpr ⟨h, fun _ => mayAssign_of_assigns hassigns hlength, hplaced⟩
    · exact h
  · exact placed_dropLeft h

/-! Repair places every sequence. -/

theorem isOperator_repairToken (source : String) (op : Operator) (t : Token) :
    (repairToken source t).result.value.isOperator op = t.isOperator op := by
  cases t <;> rfl

theorem isTarget_repairToken (source : String) (t : Token) :
    isTarget (repairToken source t).result.value = isTarget t := by
  cases t <;> rfl

theorem isOperator_of_repairToken {source : String} {op : Operator} {t : Token}
    (h : (repairToken source t).result.value = .operator op) : t.isOperator op = true := by
  rw [← isOperator_repairToken source op t, h]
  exact decide_eq_true rfl

theorem sequencePlaced_repairToken {source : String} {root : Bool} {before : List Token} {t : Token}
    (h : SequencePlaced root [] before.reverse) (hset : t ≠ .operator .set)
    (ht : (repairToken source t).result.value.Placed) :
    SequencePlaced root [] ((repairToken source t).result.value :: before).reverse := by
  refine sequencePlaced_snoc.mpr ⟨h, ?_, ht⟩
  intro hvalue
  exact absurd (eq_of_isOperator (isOperator_of_repairToken hvalue)) hset

theorem argumentsPlaced_repairToken {source : String} {before : List Token} {t : Token}
    (h : ArgumentsPlaced [] before.reverse) (hset : t ≠ .operator .set)
    (hcomma : t = .operator .comma → endsOpen before = false)
    (ht : (repairToken source t).result.value.Placed) :
    ArgumentsPlaced [] ((repairToken source t).result.value :: before).reverse := by
  refine argumentsPlaced_snoc.mpr ⟨h, ?_, ?_, ht⟩
  · intro hvalue
    exact hset (eq_of_isOperator (isOperator_of_repairToken hvalue))
  · intro hvalue
    exact hcomma (eq_of_isOperator (isOperator_of_repairToken hvalue))

mutual

theorem placed_repairToken (source : String) : (t : Token) →
    (repairToken source t).result.value.Placed
  | .group inner => by
    have hinner := @placed_repairSequence source false inner [] sequencePlaced_nil
    simpa only [repairToken, Reported.result_bind, Reported.result_pure, Token.Placed] using hinner
  | .conditional whenTrue whenFalse => by
    have htrue := @placed_repairSequence source false whenTrue [] sequencePlaced_nil
    have hfalse := @placed_repairSequence source false whenFalse [] sequencePlaced_nil
    simp only [repairToken, Reported.result_bind, Reported.result_pure, Token.Placed]
    exact ⟨htrue, hfalse⟩
  | .call s arguments => by
    have harguments := @placed_repairArguments source arguments [] argumentsPlaced_nil
    simpa only [repairToken, Reported.result_bind, Reported.result_pure, Token.Placed] using harguments
  | .undefined | .number _ | .text _ | .operator _ | .name _ => by
    simp only [repairToken, Reported.result_pure, Token.Placed]

theorem placed_repairSequence {source : String} {root : Bool} : (rest : List Token) →
    {before : List Token} → SequencePlaced root [] before.reverse →
      SequencePlaced root [] (repairSequence source root before rest).result.value
  | [], before, h => by
    simpa only [repairSequence, Reported.result_pure] using h
  | t :: rest, before, h => by
    rw [repairSequence]
    split
    · exact placed_repairSequence rest (placed_placeAssignment source h)
    · rename_i hset
      have ht := placed_repairToken source t
      refine placed_repairSequence rest (sequencePlaced_repairToken h ?_ ht)
      rintro rfl
      exact hset (isOperator_operator .set)

theorem placed_repairArguments {source : String} : (rest : List Token) →
    {before : List Token} → ArgumentsPlaced [] before.reverse →
      ArgumentsPlaced [] (repairArguments source before rest).result.value
  | [], before, h => by
    simpa only [repairArguments, Reported.result_pure] using h
  | t :: rest, before, h => by
    rw [repairArguments]
    split
    · exact placed_repairArguments rest h
    · split
      · exact placed_repairArguments rest h
      · rename_i hset hcomma
        have ht := placed_repairToken source t
        refine placed_repairArguments rest (argumentsPlaced_repairToken h ?_ ?_ ht)
        · rintro rfl
          exact hset (isOperator_operator .set)
        · rintro rfl
          simpa [isOperator_operator] using hcomma

end

/-! What repair does at an `=`, and with tokens that are placed. -/

section
variable (source : String) {root : Bool} {before rest : List Token}

theorem repairSequence_kept (hassigns : assigns root (before.reverse ++ .operator .set :: rest))
    (hlength : before.length = 1) :
    repairSequence source root before (.operator .set :: rest) =
      repairSequence source root (.operator .set :: before) rest := by
  rw [repairSequence, if_pos (isOperator_operator .set), placeAssignment_eq source root before rest,
    if_pos hassigns, if_pos hlength, pure_bind]
  exact bind_pure _

theorem repairSequence_chained (hassigns : assigns root (before.reverse ++ .operator .set :: rest))
    (hlength : before.length ≠ 1) :
    repairSequence source root before (.operator .set :: rest) = (do
      report (.chainedAssignment source)
      repairSequence source root before rest) := by
  rw [repairSequence, if_pos (isOperator_operator .set), placeAssignment_eq source root before rest,
    if_pos hassigns, if_neg hlength, bind_assoc]
  exact congrArg _ (funext fun _ => bind_pure _)

theorem repairSequence_misplaced
    (hassigns : assigns root (before.reverse ++ .operator .set :: rest) = false) :
    repairSequence source root before (.operator .set :: rest) = (do
      report (.misplacedAssignment source)
      let sequence ← repairSequence source root (dropLeft before) rest
      pure ⟨sequence.value, false⟩) := by
  rw [repairSequence, if_pos (isOperator_operator .set), placeAssignment_eq source root before rest,
    if_neg (ne_true_of_eq_false hassigns), placeAssignment.misplaced, bind_assoc]
  rfl

theorem repairSequence_token {t : Token} (h : t ≠ .operator .set) :
    repairSequence source root before (t :: rest) = (do
      let token ← repairToken source t
      let sequence ← repairSequence source root (token.value :: before) rest
      pure ⟨sequence.value, token.valid && sequence.valid⟩) := by
  rw [repairSequence, if_neg fun hop => h (eq_of_isOperator hop)]

theorem repairArguments_assignment :
    repairArguments source before (.operator .set :: rest) = (do
      report (.assignmentInArguments source)
      let sequence ← repairArguments source before rest
      pure ⟨sequence.value, false⟩) := by
  rw [repairArguments, if_pos (isOperator_operator .set)]

theorem repairArguments_separator (hopen : endsOpen before = true) :
    repairArguments source before (.operator .comma :: rest) = (do
      report (.misplacedSeparator source)
      let sequence ← repairArguments source before rest
      pure ⟨sequence.value, false⟩) := by
  rw [repairArguments, if_neg (by decide), if_pos]
  rw [isOperator_operator, hopen, Bool.and_self]

theorem repairArguments_token {t : Token} (hset : t ≠ .operator .set)
    (hcomma : t = .operator .comma → endsOpen before = false) :
    repairArguments source before (t :: rest) = (do
      let token ← repairToken source t
      let sequence ← repairArguments source (token.value :: before) rest
      pure ⟨sequence.value, token.valid && sequence.valid⟩) := by
  rw [repairArguments, if_neg fun hop => hset (eq_of_isOperator hop), if_neg]
  intro hop
  rw [Bool.and_eq_true] at hop
  rw [hcomma (eq_of_isOperator hop.1)] at hop
  exact Bool.false_ne_true hop.2

end

mutual

theorem repairToken_of_placed (source : String) : (t : Token) → t.Placed →
    repairToken source t = pure ⟨t, true⟩
  | .group inner, h => by
    simp only [Token.Placed] at h
    have hinner := repairSequence_append_of_placed source inner [] h
    simp only [List.append_nil, repairSequence, List.reverse_reverse] at hinner
    rw [repairToken, hinner, pure_bind]
  | .conditional whenTrue whenFalse, h => by
    simp only [Token.Placed] at h
    have htrue := repairSequence_append_of_placed source whenTrue [] h.1
    have hfalse := repairSequence_append_of_placed source whenFalse [] h.2
    simp only [List.append_nil, repairSequence, List.reverse_reverse] at htrue hfalse
    rw [repairToken, htrue, hfalse, pure_bind, pure_bind, Bool.and_self]
  | .call s arguments, h => by
    simp only [Token.Placed] at h
    have harguments := repairArguments_append_of_placed source arguments [] h
    simp only [List.append_nil, repairArguments, List.reverse_reverse] at harguments
    rw [repairToken, harguments, pure_bind]
  | .undefined, _ | .number _, _ | .text _, _ | .operator _, _ | .name _, _ => rfl

theorem repairSequence_append_of_placed (source : String) {root : Bool} : (ts rest : List Token) →
    {before : List Token} → SequencePlaced root before ts →
      repairSequence source root before (ts ++ rest) =
        repairSequence source root (ts.reverse ++ before) rest
  | [], rest, before, _ => by
    simp only [List.nil_append, List.reverse_nil]
  | t :: ts, rest, before, h => by
    simp only [SequencePlaced] at h
    obtain ⟨hset, ht, hts⟩ := h
    have ih := repairSequence_append_of_placed source ts rest hts
    rw [List.reverse_cons, List.append_assoc, List.singleton_append, ← ih, List.cons_append]
    by_cases hop : t = .operator .set
    · subst hop
      have hmay := hset rfl
      obtain ⟨-, target, hbefore, -⟩ := hset rfl
      exact repairSequence_kept source (hmay.assigns _) (by rw [hbefore, List.length_singleton])
    · rw [repairSequence_token source hop, repairToken_of_placed source t ht, pure_bind]
      exact bind_pure _

theorem repairArguments_append_of_placed (source : String) : (ts rest : List Token) →
    {before : List Token} → ArgumentsPlaced before ts →
      repairArguments source before (ts ++ rest) =
        repairArguments source (ts.reverse ++ before) rest
  | [], rest, before, _ => by
    simp only [List.nil_append, List.reverse_nil]
  | t :: ts, rest, before, h => by
    simp only [ArgumentsPlaced] at h
    obtain ⟨hset, hcomma, ht, hts⟩ := h
    have ih := repairArguments_append_of_placed source ts rest hts
    rw [List.reverse_cons, List.append_assoc, List.singleton_append, ← ih, List.cons_append,
      repairArguments_token source hset hcomma, repairToken_of_placed source t ht, pure_bind]
    exact bind_pure _

end

/-- Repair changes nothing about a sequence that is placed. -/
theorem repair_of_placed (source : String) {root : Bool} {tokens : List Token}
    (h : SequencePlaced root [] tokens) : repair source root tokens = pure ⟨tokens, true⟩ := by
  have happend := repairSequence_append_of_placed source tokens [] h
  simpa only [repair, List.append_nil, repairSequence, List.reverse_reverse] using happend

theorem placed_repair (source : String) (root : Bool) (tokens : List Token) :
    SequencePlaced root [] (repair source root tokens).result.value :=
  placed_repairSequence tokens sequencePlaced_nil

/-! Each token that repair leaves is one of those before, repaired. -/

section
variable {source : String} {t : Token}

theorem mem_placeAssignment {root : Bool} {before : List Token}
    (h : t ∈ (placeAssignment source root before).result.value) :
    t = .operator .set ∨ t ∈ before := by
  have hleft (h : t ∈ dropLeft before) : t ∈ before := by
    unfold dropLeft at h
    split at h
    · exact h
    · exact List.mem_cons_of_mem _ h
    · exact h
  rw [placeAssignment_eq source root before []] at h
  split at h
  · split at h
    · exact List.mem_cons.mp h
    · exact .inr h
  · exact .inr (hleft h)

theorem mem_repairSequence {root : Bool} {before rest : List Token}
    (h : t ∈ (repairSequence source root before rest).result.value) :
    t ∈ before ∨ ∃ u ∈ rest, t = (repairToken source u).result.value := by
  induction rest generalizing before with
  | nil =>
    rw [repairSequence] at h
    exact .inl (List.mem_reverse.mp h)
  | cons u rest ih =>
    rw [repairSequence] at h
    split at h
    · rename_i hop
      rcases ih h with hplaced | hrest
      · rcases mem_placeAssignment hplaced with rfl | hbefore
        · exact .inr ⟨u, List.mem_cons_self .., by rw [eq_of_isOperator hop]; rfl⟩
        · exact .inl hbefore
      · exact .inr (List.exists_mem_cons_of_exists hrest)
    · rcases ih h with htoken | hrest
      · rcases List.mem_cons.mp htoken with rfl | hbefore
        · exact .inr ⟨u, List.mem_cons_self .., rfl⟩
        · exact .inl hbefore
      · exact .inr (List.exists_mem_cons_of_exists hrest)

theorem mem_repairArguments {before rest : List Token}
    (h : t ∈ (repairArguments source before rest).result.value) :
    t ∈ before ∨ ∃ u ∈ rest, t = (repairToken source u).result.value := by
  induction rest generalizing before with
  | nil =>
    rw [repairArguments] at h
    exact .inl (List.mem_reverse.mp h)
  | cons u rest ih =>
    rw [repairArguments] at h
    split at h
    · exact (ih h).imp_right List.exists_mem_cons_of_exists
    · split at h
      · exact (ih h).imp_right List.exists_mem_cons_of_exists
      · rcases ih h with htoken | hrest
        · rcases List.mem_cons.mp htoken with rfl | hbefore
          · exact .inr ⟨u, List.mem_cons_self .., rfl⟩
          · exact .inl hbefore
        · exact .inr (List.exists_mem_cons_of_exists hrest)

end

end Reckon
