import Reckon.Reduction

/-!
The sequences of a tree of tokens.

Each stands some levels below the root and either is the arguments of a call or is not. What holds of
the tokens of a tree one by one is stated in two ways, by recursion over the tree and for each of its
sequences; the first is what proofs by induction on the tree use.
-/

namespace Reckon

theorem eq_of_isOperator {op : Operator} {t : Token} (h : t.isOperator op) : t = .operator op := by
  cases t with
  | operator o => rw [of_decide_eq_true h]
  | _ => contradiction

theorem isOperator_operator (op : Operator) : (Token.operator op).isOperator op = true :=
  decide_eq_true rfl

/-- A sequence of the tree below `root`, how many levels down it is and whether it is arguments. -/
inductive SequenceAt (inArguments : Bool) (root : List Token) : Nat → Bool → List Token → Prop where
  | root : SequenceAt inArguments root 0 inArguments root
  | arguments {level : Nat} {inside : Bool} {ts : List Token} {s : String} {arguments : List Token} :
      SequenceAt inArguments root level inside ts → .call s arguments ∈ ts →
        SequenceAt inArguments root (level + 1) true arguments
  | interior {level : Nat} {inside : Bool} {ts inner : List Token} :
      SequenceAt inArguments root level inside ts → .group inner ∈ ts →
        SequenceAt inArguments root (level + 1) false inner
  | whenTrue {level : Nat} {inside : Bool} {ts whenTrue whenFalse : List Token} :
      SequenceAt inArguments root level inside ts → .conditional whenTrue whenFalse ∈ ts →
        SequenceAt inArguments root (level + 1) false whenTrue
  | whenFalse {level : Nat} {inside : Bool} {ts whenTrue whenFalse : List Token} :
      SequenceAt inArguments root level inside ts → .conditional whenTrue whenFalse ∈ ts →
        SequenceAt inArguments root (level + 1) false whenFalse

mutual

/-- Whether a property holds of a token and of all tokens in it, inside arguments or not. -/
def Token.Every (p : Bool → Token → Prop) : Bool → Token → Prop
  | inArguments, .call s arguments => p inArguments (.call s arguments) ∧ AllEvery p true arguments
  | inArguments, .group inner => p inArguments (.group inner) ∧ AllEvery p false inner
  | inArguments, .conditional whenTrue whenFalse =>
    p inArguments (.conditional whenTrue whenFalse) ∧ AllEvery p false whenTrue ∧
      AllEvery p false whenFalse
  | inArguments, t => p inArguments t

def AllEvery (p : Bool → Token → Prop) : Bool → List Token → Prop
  | _, [] => True
  | inArguments, t :: rest => t.Every p inArguments ∧ AllEvery p inArguments rest

end

section
variable {p : Bool → Token → Prop} {inArguments : Bool}

theorem Token.Every.self {t : Token} (h : t.Every p inArguments) : p inArguments t := by
  cases t with
  | call _ _ | group _ | conditional _ _ =>
    simp only [Token.Every] at h
    exact h.1
  | undefined | number _ | text _ | operator _ | name _ =>
    simpa only [Token.Every] using h

theorem allEvery_iff {ts : List Token} :
    AllEvery p inArguments ts ↔ ∀ t ∈ ts, t.Every p inArguments := by
  induction ts with
  | nil => simp [AllEvery]
  | cons t rest ih => simp [AllEvery, ih]

theorem allEvery_append {ts us : List Token} :
    AllEvery p inArguments (ts ++ us) ↔ AllEvery p inArguments ts ∧ AllEvery p inArguments us := by
  simp [allEvery_iff, or_imp, forall_and]

theorem AllEvery.of_sequenceAt {root ts : List Token} {level : Nat} {inside : Bool}
    (h : AllEvery p inArguments root) (hts : SequenceAt inArguments root level inside ts) :
    AllEvery p inside ts := by
  induction hts with
  | root => exact h
  | arguments _ hm ih | interior _ hm ih =>
    have ht := allEvery_iff.mp ih _ hm
    simp only [Token.Every] at ht
    exact ht.2
  | whenTrue _ hm ih =>
    have ht := allEvery_iff.mp ih _ hm
    simp only [Token.Every] at ht
    exact ht.2.1
  | whenFalse _ hm ih =>
    have ht := allEvery_iff.mp ih _ hm
    simp only [Token.Every] at ht
    exact ht.2.2

end

mutual

theorem Token.Every.mono {p q : Bool → Token → Prop} (hpq : ∀ inside t, p inside t → q inside t) :
    {t : Token} → {inside : Bool} → t.Every p inside → t.Every q inside
  | .undefined, _, h | .number _, _, h | .text _, _, h | .operator _, _, h | .name _, _, h => by
    simp only [Token.Every] at h ⊢
    exact hpq _ _ h
  | .call s arguments, _, h => by
    simp only [Token.Every] at h ⊢
    exact ⟨hpq _ _ h.1, AllEvery.mono hpq h.2⟩
  | .group inner, _, h => by
    simp only [Token.Every] at h ⊢
    exact ⟨hpq _ _ h.1, AllEvery.mono hpq h.2⟩
  | .conditional whenTrue whenFalse, _, h => by
    simp only [Token.Every] at h ⊢
    exact ⟨hpq _ _ h.1, AllEvery.mono hpq h.2.1, AllEvery.mono hpq h.2.2⟩

theorem AllEvery.mono {p q : Bool → Token → Prop} (hpq : ∀ inside t, p inside t → q inside t) :
    {ts : List Token} → {inside : Bool} → AllEvery p inside ts → AllEvery q inside ts
  | [], _, _ => by simp only [AllEvery]
  | t :: rest, _, h => by
    simp only [AllEvery] at h ⊢
    exact ⟨Token.Every.mono hpq h.1, AllEvery.mono hpq h.2⟩

end

/-- A token of a tree, with whether it stands in arguments. -/
def TokenAt (inArguments : Bool) (root : List Token) (inside : Bool) (t : Token) : Prop :=
  ∃ level ts, SequenceAt inArguments root level inside ts ∧ t ∈ ts

theorem AllEvery.of_tokenAt {p : Bool → Token → Prop} {inArguments inside : Bool} {root : List Token}
    {t : Token} (h : AllEvery p inArguments root) (ht : TokenAt inArguments root inside t) :
    p inside t := by
  obtain ⟨level, ts, hts, hm⟩ := ht
  exact (allEvery_iff.mp (h.of_sequenceAt hts) t hm).self

mutual

theorem every_of_tokenAt {inArguments : Bool} {root : List Token} :
    (t : Token) → {inside : Bool} → TokenAt inArguments root inside t →
      t.Every (TokenAt inArguments root) inside
  | .undefined, _, h | .number _, _, h | .text _, _, h | .operator _, _, h | .name _, _, h => by
    simpa only [Token.Every] using h
  | .call s arguments, _, h => by
    obtain ⟨level, ts, hts, hm⟩ := h
    simp only [Token.Every]
    exact ⟨⟨level, ts, hts, hm⟩, allEvery_of_tokenAt arguments fun t ht => ⟨_, _, hts.arguments hm, ht⟩⟩
  | .group inner, _, h => by
    obtain ⟨level, ts, hts, hm⟩ := h
    simp only [Token.Every]
    exact ⟨⟨level, ts, hts, hm⟩, allEvery_of_tokenAt inner fun t ht => ⟨_, _, hts.interior hm, ht⟩⟩
  | .conditional whenTrue whenFalse, _, h => by
    obtain ⟨level, ts, hts, hm⟩ := h
    simp only [Token.Every]
    exact ⟨⟨level, ts, hts, hm⟩,
      allEvery_of_tokenAt whenTrue fun t ht => ⟨_, _, hts.whenTrue hm, ht⟩,
      allEvery_of_tokenAt whenFalse fun t ht => ⟨_, _, hts.whenFalse hm, ht⟩⟩

theorem allEvery_of_tokenAt {inArguments : Bool} {root : List Token} :
    (ts : List Token) → {inside : Bool} → (∀ t ∈ ts, TokenAt inArguments root inside t) →
      AllEvery (TokenAt inArguments root) inside ts
  | [], _, _ => by simp only [AllEvery]
  | t :: rest, _, h => by
    simp only [AllEvery]
    exact ⟨every_of_tokenAt t (h t (List.mem_cons_self ..)),
      allEvery_of_tokenAt rest fun u hu => h u (List.mem_cons_of_mem t hu)⟩

end

/-- Every token of a tree is one of its tokens. -/
theorem allEvery_tokenAt (inArguments : Bool) (root : List Token) :
    AllEvery (TokenAt inArguments root) inArguments root :=
  allEvery_of_tokenAt root fun _ ht => ⟨0, root, .root, ht⟩

/-! How deep a tree is. -/

mutual

/-- How deep the sequences in a token are nested. -/
def Token.nesting : Token → Nat
  | .call _ arguments => sequenceNesting arguments + 1
  | .group inner => sequenceNesting inner + 1
  | .conditional whenTrue whenFalse =>
    max (sequenceNesting whenTrue) (sequenceNesting whenFalse) + 1
  | _ => 0

def sequenceNesting : List Token → Nat
  | [] => 0
  | t :: rest => max t.nesting (sequenceNesting rest)

end

theorem sequenceNesting_le_iff {ts : List Token} {n : Nat} :
    sequenceNesting ts ≤ n ↔ ∀ t ∈ ts, t.nesting ≤ n := by
  induction ts with
  | nil => simp [sequenceNesting]
  | cons t rest ih => rw [sequenceNesting, Nat.max_le, ih, List.forall_mem_cons]

end Reckon
