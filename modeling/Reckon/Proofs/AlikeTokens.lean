import Mathlib.Data.List.Forall2
import Reckon.Proofs.ReductionWeight
import Reckon.Proofs.TokenTree

/-!
Tokens that differ only in names.

Two trees are alike if they have the same shape and their names are related, those of variables in one
way and those of calls in another. What looks at no name does the same with alike tokens: it finds, cuts
and combines them alike.
-/

namespace Reckon

/-- Tokens of one shape, whose names are related as variables or as functions. -/
inductive Token.Alike (names calls : String → String → Prop) : Token → Token → Prop where
  | undefined : Token.Alike names calls .undefined .undefined
  | number (n : Float) : Token.Alike names calls (.number n) (.number n)
  | text (s : String) : Token.Alike names calls (.text s) (.text s)
  | operator (op : Operator) : Token.Alike names calls (.operator op) (.operator op)
  | name {s s' : String} : names s s' → Token.Alike names calls (.name s) (.name s')
  | call {s s' : String} {arguments arguments' : List Token} :
      calls s s' → List.Forall₂ (Token.Alike names calls) arguments arguments' →
      Token.Alike names calls (.call s arguments) (.call s' arguments')
  | group {inner inner' : List Token} :
      List.Forall₂ (Token.Alike names calls) inner inner' →
      Token.Alike names calls (.group inner) (.group inner')
  | conditional {whenTrue whenFalse whenTrue' whenFalse' : List Token} :
      List.Forall₂ (Token.Alike names calls) whenTrue whenTrue' →
      List.Forall₂ (Token.Alike names calls) whenFalse whenFalse' →
      Token.Alike names calls (.conditional whenTrue whenFalse) (.conditional whenTrue' whenFalse')

/-- Sequences of alike tokens. -/
abbrev AllAlike (names calls : String → String → Prop) : List Token → List Token → Prop :=
  List.Forall₂ (Token.Alike names calls)

section Alike

variable {names calls : String → String → Prop}

namespace Token.Alike

variable {t u : Token} (h : t.Alike names calls u)

theorem of_isValue (ht : t.isValue) : t.Alike names calls t := by
  cases t with
  | undefined => exact .undefined
  | number n => exact .number n
  | text s => exact .text s
  | operator _ | name _ | call _ _ | group _ | conditional _ _ => simp [isValue] at ht

include h

theorem isName_eq : t.isName = u.isName := by cases h <;> rfl

theorem isCall_eq : isCall t = isCall u := by cases h <;> rfl

theorem isGroup_eq : isGroup t = isGroup u := by cases h <;> rfl

theorem isConditional_eq : isConditional t = isConditional u := by cases h <;> rfl

theorem isOperator_eq (op : Operator) : t.isOperator op = u.isOperator op := by cases h <;> rfl

theorem isScalar_eq : t.isScalar = u.isScalar := by cases h <;> rfl

theorem isText_eq : t.isText = u.isText := by cases h <;> rfl

theorem isNumber_eq : t.isNumber = u.isNumber := by cases h <;> rfl

theorem toNumber_eq : t.toNumber = u.toNumber := by cases h <;> rfl

theorem toText_eq : t.toText = u.toText := by cases h <;> rfl

theorem toValue_eq : t.toValue = u.toValue := by cases h <;> rfl

end Token.Alike

mutual

theorem Token.Alike.weight_eq : {t u : Token} → t.Alike names calls u → t.weight = u.weight
  | .undefined, _, .undefined | .number _, _, .number _ | .text _, _, .text _
  | .operator _, _, .operator _ | .name _, _, .name _ => rfl
  | .call _ _, _, .call _ h => by simp only [Token.weight, sequenceWeight_alike h]
  | .group _, _, .group h => by simp only [Token.weight, sequenceWeight_alike h]
  | .conditional _ _, _, .conditional h h' => by
    simp only [Token.weight, sequenceWeight_alike h, sequenceWeight_alike h']

theorem sequenceWeight_alike : {ts us : List Token} → AllAlike names calls ts us →
    sequenceWeight ts = sequenceWeight us
  | [], _, .nil => rfl
  | _ :: _, _, .cons h hrest => by
    rw [sequenceWeight_cons, sequenceWeight_cons, h.weight_eq, sequenceWeight_alike hrest]

end

section Every

variable {names' calls' : String → String → Prop} {p : Bool → Token → Prop}

mutual

/-- Tokens are alike in another way, too, if what holds of their names says so. -/
theorem Token.Alike.of_every
    (hnames : ∀ {inside s s'}, p inside (.name s) → names s s' → names' s s')
    (hcalls : ∀ {inside s s' arguments}, p inside (.call s arguments) → calls s s' → calls' s s') :
    {t u : Token} → {inside : Bool} → t.Alike names calls u →
    t.Every p inside → t.Alike names' calls' u
  | .undefined, _, _, .undefined, _ => .undefined
  | .number n, _, _, .number _, _ => .number n
  | .text s, _, _, .text _, _ => .text s
  | .operator op, _, _, .operator _, _ => .operator op
  | .name _, _, _, .name hs, h => by
    simp only [Token.Every] at h
    exact .name (hnames h hs)
  | .call _ _, _, _, .call hs harguments, h => by
    simp only [Token.Every] at h
    exact .call (hcalls h.1 hs) (allAlike_of_every hnames hcalls harguments h.2)
  | .group _, _, _, .group hinner, h => by
    simp only [Token.Every] at h
    exact .group (allAlike_of_every hnames hcalls hinner h.2)
  | .conditional _ _, _, _, .conditional htrue hfalse, h => by
    simp only [Token.Every] at h
    exact .conditional (allAlike_of_every hnames hcalls htrue h.2.1)
      (allAlike_of_every hnames hcalls hfalse h.2.2)

theorem allAlike_of_every
    (hnames : ∀ {inside s s'}, p inside (.name s) → names s s' → names' s s')
    (hcalls : ∀ {inside s s' arguments}, p inside (.call s arguments) → calls s s' → calls' s s') :
    {ts us : List Token} → {inside : Bool} → AllAlike names calls ts us →
    AllEvery p inside ts → AllAlike names' calls' ts us
  | [], _, _, .nil, _ => .nil
  | _ :: _, _, _, .cons ht hrest, h => by
    simp only [AllEvery] at h
    exact .cons (ht.of_every hnames hcalls h.1) (allAlike_of_every hnames hcalls hrest h.2)

end

end Every

/-! Sequences of alike tokens are cut alike. -/

section Lists

variable {ts us : List Token}

theorem needsReduction_alike (h : AllAlike names calls ts us) :
    needsReduction ts = needsReduction us := by
  match h with
  | .nil => rfl
  | .cons ht .nil =>
    cases ht with
    | undefined | number _ | text _ | operator _ | name _ | call _ _ | group _ | conditional _ _ => rfl
  | .cons _ (.cons _ _) => rw [needsReduction_of_long (by simp), needsReduction_of_long (by simp)]

theorem any_isName_alike (h : AllAlike names calls ts us) :
    ts.any Token.isName = us.any Token.isName := by
  induction h with
  | nil => rfl
  | cons ht _ ih => rw [List.any_cons, List.any_cons, ht.isName_eq, ih]

/-- Both sequences are cut at their first token of a kind, or neither has one. -/
theorem splitFirst_alike {p : Token → Bool} (hp : ∀ {t u}, t.Alike names calls u → p t = p u)
    (h : AllAlike names calls ts us) :
    splitFirst p ts = none ∧ splitFirst p us = none ∨
    ∃ before t after before' u after', splitFirst p ts = some (before, t, after) ∧
      splitFirst p us = some (before', u, after') ∧ AllAlike names calls before before' ∧
      t.Alike names calls u ∧ AllAlike names calls after after' := by
  induction h with
  | nil => exact .inl ⟨rfl, rfl⟩
  | @cons t u ts us ht hrest ih =>
    rw [splitFirst, splitFirst, ← hp ht]
    cases p t with
    | true => exact .inr ⟨[], t, ts, [], u, us, rfl, rfl, .nil, ht, hrest⟩
    | false =>
      rcases ih with ⟨hnone, hnone'⟩ | ⟨before, t', after, before', u', after', hsome, hsome', hbefore,
        hfound, hafter⟩
      · exact .inl ⟨by simp [hnone], by simp [hnone']⟩
      · exact .inr ⟨t :: before, t', after, u :: before', u', after', by simp [hsome],
          by simp [hsome'], .cons ht hbefore, hfound, hafter⟩

theorem splitArguments_alike (h : AllAlike names calls ts us) :
    List.Forall₂ (AllAlike names calls) (splitArguments ts) (splitArguments us) := by
  induction h with
  | nil => exact .nil
  | @cons t u ts us ht hrest ih =>
    rw [splitArguments, splitArguments, ← ht.isOperator_eq .comma]
    cases t.isOperator .comma with
    | true => exact .cons .nil ih
    | false =>
      revert ih
      generalize splitArguments ts = slots, splitArguments us = slots'
      intro ih
      cases ih with
      | nil => exact .cons (.cons ht .nil) .nil
      | cons hfirst hmore => exact .cons (.cons ht hfirst) hmore

theorem head?_alike (h : AllAlike names calls ts us) :
    (ts.head?.getD .undefined).Alike names calls (us.head?.getD .undefined) := by
  cases h with
  | nil => exact .undefined
  | cons ht _ => exact ht

theorem getLast?_alike (h : AllAlike names calls ts us) :
    Option.Rel (Token.Alike names calls) ts.getLast? us.getLast? := by
  have hreverse : AllAlike names calls ts.reverse us.reverse := List.rel_reverse h
  rw [← List.head?_reverse, ← List.head?_reverse]
  generalize ts.reverse = ts', us.reverse = us' at hreverse
  cases hreverse with
  | nil => exact .none
  | cons ht _ => exact .some ht

end Lists

/-! Operands that are alike are combined to the same value. -/

section Operands

variable {t u t' u' : Token}

theorem alike_value (ht : t.isValue) (he : t = u) : t.Alike names calls u :=
  he ▸ Token.Alike.of_isValue ht

theorem applyBinary_alike (op : Operator) (h : t.Alike names calls u) (h' : t'.Alike names calls u') :
    applyBinary op t t' = applyBinary op u u' := by
  unfold applyBinary
  rw [h.isText_eq, h.isNumber_eq, h.toNumber_eq, h.toText_eq, h'.isText_eq, h'.toNumber_eq,
    h'.toText_eq]

theorem negate_alike (h : t.Alike names calls u) :
    (negate t).Alike names calls (negate u) := by
  rw [negate, negate, h.toNumber_eq]
  exact .number _

theorem logicalNot_alike (op : Operator) (h : t.Alike names calls u) :
    (logicalNot op t).Alike names calls (logicalNot op u) := by
  have hsame : logicalNot op t = logicalNot op u := by
    unfold logicalNot
    rw [h.toNumber_eq]
  exact alike_value (Token.isValue_of_isScalar (isScalar_logicalNot op t)) hsame

theorem chooseBranch_alike {whenTrue whenFalse whenTrue' whenFalse' : List Token}
    (h : t.Alike names calls u) (htrue : AllAlike names calls whenTrue whenTrue')
    (hfalse : AllAlike names calls whenFalse whenFalse') :
    (chooseBranch t whenTrue whenFalse).Alike names calls (chooseBranch u whenTrue' whenFalse') := by
  unfold chooseBranch
  rw [h.toNumber_eq]
  split
  · exact head?_alike htrue
  · exact head?_alike hfalse

theorem dropWhile_alike {p : Token → Bool} (hp : ∀ {t u}, t.Alike names calls u → p t = p u)
    {ts us : List Token} (h : AllAlike names calls ts us) :
    (ts.takeWhile p).length = (us.takeWhile p).length ∧
      AllAlike names calls (ts.dropWhile p) (us.dropWhile p) := by
  induction h with
  | nil => exact ⟨rfl, .nil⟩
  | @cons t u ts us ht hrest ih =>
    rw [List.takeWhile_cons, List.takeWhile_cons, List.dropWhile_cons, List.dropWhile_cons, ← hp ht]
    cases p t with
    | true => exact ⟨congrArg Nat.succ ih.1, ih.2⟩
    | false => exact ⟨rfl, .cons ht hrest⟩

theorem foldSign_sub_alike {ts us : List Token} (h : AllAlike names calls ts us) :
    Option.Rel (AllAlike names calls) (foldSign (.operator .sub :: ts))
      (foldSign (.operator .sub :: us)) := by
  obtain ⟨hsigns, hdrop⟩ := dropWhile_alike (fun h => h.isOperator_eq .sub) (.cons (.operator .sub) h)
  unfold foldSign
  dsimp only
  rw [hsigns]
  generalize (Token.operator .sub :: ts).dropWhile (Token.isOperator .sub) = operands,
    (Token.operator .sub :: us).dropWhile (Token.isOperator .sub) = operands' at hdrop ⊢
  cases hdrop with
  | nil => exact .none
  | cons ht hrest =>
    dsimp only
    rw [ht.isScalar_eq]
    split
    · refine .some (.cons ?_ hrest)
      split
      · exact negate_alike ht
      · exact ht
    · exact .none

theorem foldSign_not {op : Operator} (hop : op.isLogicalNot) (next : Token) (rest : List Token) :
    foldSign (.operator op :: next :: rest) =
      if next.isScalar then some (logicalNot op next :: rest)
      else match next, rest with
        | .operator .sub, operand :: rest =>
          if operand.isScalar then some (logicalNot op (negate operand) :: rest) else none
        | _, _ => none := by
  cases op with
  | not | notNot => rfl
  | _ => exact Bool.noConfusion hop

theorem foldSign_not_alike {op : Operator} (hop : op.isLogicalNot) {ts us : List Token}
    (h : AllAlike names calls ts us) :
    Option.Rel (AllAlike names calls) (foldSign (.operator op :: ts))
      (foldSign (.operator op :: us)) := by
  match h with
  | .nil =>
    cases op with
    | not | notNot => exact .none
    | _ => exact Bool.noConfusion hop
  | .cons ht hrest =>
    rw [foldSign_not hop, foldSign_not hop]
    cases ht with
    | number n => exact .some (.cons (logicalNot_alike op (.number n)) hrest)
    | text s => exact .some (.cons (logicalNot_alike op (.text s)) hrest)
    | undefined | name _ | call _ _ | group _ | conditional _ _ => exact .none
    | operator found =>
      cases found with
      | sub =>
        cases hrest with
        | nil => exact .none
        | cons hoperand hmore =>
          rw [if_neg (by simp [Token.isScalar]), if_neg (by simp [Token.isScalar])]
          dsimp only
          rw [hoperand.isScalar_eq]
          split
          · exact .some (.cons (logicalNot_alike op (negate_alike hoperand)) hmore)
          · exact .none
      | _ => exact .none

theorem foldSign_alike {ts us : List Token} (h : AllAlike names calls ts us) :
    Option.Rel (AllAlike names calls) (foldSign ts) (foldSign us) := by
  match h with
  | .nil => exact .none
  | .cons ht hrest =>
    cases ht with
    | undefined | number _ | text _ | name _ | call _ _ | group _ | conditional _ _ => exact .none
    | operator op =>
      cases op with
      | sub => exact foldSign_sub_alike hrest
      | not | notNot => exact foldSign_not_alike rfl hrest
      | _ =>
        cases hrest with
        | nil | cons _ _ => exact .none

end Operands

end Alike

end Reckon
