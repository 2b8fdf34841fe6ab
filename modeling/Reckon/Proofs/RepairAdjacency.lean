import Reckon.Proofs.CanonicalInverse
import Reckon.Proofs.RepairPlacement
import Reckon.Proofs.SourceWellFormed

/-!
Operators side by side after repair.

Taking out a misplaced `=` with the token before it brings the token before that one and the token after
the `=` together. The reader would keep both only if they were allowed side by side in the source, and
repair does not ask. Everything else that is taken out leaves operators where they may stand.
-/

namespace Reckon

/-- Whether in every sequence of a tree each operator after another is one that reading keeps there. -/
def Orderly (tokens : List Token) : Prop :=
  ∀ level inside ts, SequenceAt false tokens level inside ts → ts.IsChain Token.Precedes

/-- Whether the tokens that come together where a misplaced `=` is taken out may stand side by side,
after tokens that are repaired, the last of them first. -/
def Apart (source : String) (root : Bool) (before rest : List Token) : Prop :=
  ∀ a o b, rest = a ++ .operator .set :: o :: b →
    let left := (repairSequence source root before a).result.value
    assigns root (left ++ .operator .set :: o :: b) = false →
      ∀ p ∈ (dropLeft left.reverse).head?, p.Precedes o

namespace Token

theorem precedes_left {p : Token} (h : p.operator? = none) (t : Token) : p.Precedes t := by
  cases p <;> first | contradiction | trivial

theorem precedes_right {t : Token} (h : t.operator? = none) (p : Token) : p.Precedes t := by
  cases t <;> first | contradiction | (cases p <;> trivial)

theorem operator?_of_precedes {p : Token} {op : Operator} (h : p.Precedes (.operator op))
    (hop : op.isSign = false) : p.operator? = none := by
  cases p with
  | operator o =>
    rcases h with ⟨hsign, -⟩ | ⟨-, rfl⟩
    · rw [hop] at hsign
      contradiction
    · contradiction
  | undefined | number _ | text _ | name _ | call _ _ | group _ | conditional _ _ => rfl

theorem operator?_repairToken (source : String) (t : Token) :
    (repairToken source t).result.value.operator? = t.operator? := by
  cases t <;> rfl

theorem precedes_repairToken (source : String) (p t : Token) :
    p.Precedes (repairToken source t).result.value ↔ p.Precedes t := by
  cases p <;> cases t <;> rfl

theorem repairToken_precedes (source : String) (p t : Token) :
    (repairToken source p).result.value.Precedes t ↔ p.Precedes t := by
  cases p <;> cases t <;> rfl

end Token

theorem forall_head_cons {p : Token → Prop} {t : Token} {ts : List Token} :
    (∀ u ∈ (t :: ts).head?, p u) ↔ p t := by
  simp

theorem isChain_snoc {before : List Token} {t : Token} :
    (t :: before).reverse.IsChain Token.Precedes ↔
      before.reverse.IsChain Token.Precedes ∧ ∀ p ∈ before.head?, p.Precedes t := by
  rw [List.reverse_cons, List.isChain_append]
  simp

/-- A token that is no operator can be taken away. -/
theorem isChain_dropLeft {before : List Token} (h : ∀ p ∈ before.head?, p.operator? = none) :
    (dropLeft before).reverse.IsChain Token.Precedes ↔ before.reverse.IsChain Token.Precedes := by
  unfold dropLeft
  split
  · rfl
  · rename_i x older _
    have hx : ∀ p ∈ older.head?, p.Precedes x := fun p _ => Token.precedes_right (h x rfl) p
    rw [isChain_snoc, and_iff_left hx]
  · rfl

/-! One token after the other. -/

section
variable {source : String} {root : Bool} {before rest : List Token} {t : Token}

/-- The tokens that are repaired, the last of them first, after one more. -/
def repairedBefore (source : String) (root : Bool) (before : List Token) (t : Token) : List Token :=
  if t.isOperator .set then (placeAssignment source root before).result.value
  else (repairToken source t).result.value :: before

theorem value_repairSequence_cons :
    (repairSequence source root before (t :: rest)).result.value =
      (repairSequence source root (repairedBefore source root before t) rest).result.value := by
  rw [repairSequence, repairedBefore]
  split <;> rfl

theorem repairedBefore_token (h : t ≠ .operator .set) :
    repairedBefore source root before t = (repairToken source t).result.value :: before :=
  if_neg fun hop => h (eq_of_isOperator hop)

theorem repairedBefore_assignment (rest : List Token) :
    repairedBefore source root before (.operator .set) =
      if assigns root (before.reverse ++ .operator .set :: rest) then
        if before.length = 1 then .operator .set :: before else before
      else dropLeft before := by
  rw [repairedBefore, if_pos (isOperator_operator .set), placeAssignment_eq source root before rest]
  split
  · split <;> rfl
  · rfl

theorem apart_cons : Apart source root before (t :: rest) ↔
    (t = .operator .set → assigns root (before.reverse ++ t :: rest) = false →
      ∀ p ∈ (dropLeft before).head?, ∀ o ∈ rest.head?, p.Precedes o) ∧
        Apart source root (repairedBefore source root before t) rest := by
  constructor
  · intro h
    constructor
    · rintro rfl hassigns p hp o ho
      obtain ⟨more, rfl⟩ := List.head?_eq_some_iff.mp ho
      refine h [] o more rfl ?_ p ?_
      · simpa only [repairSequence, Reported.result_pure] using hassigns
      · simpa only [repairSequence, Reported.result_pure, List.reverse_reverse] using hp
    · rintro a o b rfl
      have := h (t :: a) o b rfl
      rwa [value_repairSequence_cons] at this
  · rintro ⟨hfirst, hrest⟩ a o b heq
    cases a with
    | nil =>
      obtain ⟨rfl, rfl⟩ := List.cons.inj heq
      simp only [repairSequence, Reported.result_pure, List.reverse_reverse]
      exact fun hassigns p hp => hfirst rfl hassigns p hp o rfl
    | cons u a =>
      obtain ⟨rfl, rfl⟩ := List.cons.inj heq
      rw [value_repairSequence_cons]
      exact hrest a o b rfl

/-- What repair leaves of a sequence is in order exactly if what it has repaired before is, and nothing
comes together that may not. -/
theorem isChain_repairSequence (hrest : rest.IsChain Token.Precedes)
    (hset : ∀ t ∈ rest.head?, t = .operator .set → ∀ p ∈ before.head?, p.operator? = none) :
    (repairSequence source root before rest).result.value.IsChain Token.Precedes ↔
      before.reverse.IsChain Token.Precedes ∧
        (∀ p ∈ before.head?, ∀ t ∈ rest.head?, p.Precedes t) ∧ Apart source root before rest := by
  induction rest generalizing before with
  | nil =>
    have hapart : Apart source root before [] := by
      intro a o b h
      simp at h
    simp [repairSequence, hapart]
  | cons t rest ih =>
    have hfirst := (List.isChain_cons.mp hrest).1
    have ih (before : List Token) := @ih before hrest.tail
    rw [value_repairSequence_cons, apart_cons]
    by_cases ht : t = .operator .set
    · subst ht
      have hleft : ∀ p ∈ before.head?, ∀ u : Token, p.Precedes u := fun p hp =>
        Token.precedes_left (hset _ rfl rfl p hp)
      have hnext : ∀ u ∈ rest.head?, u ≠ .operator .set := by
        rintro u hu rfl
        have := Token.operator?_of_precedes (hfirst _ hu) rfl
        contradiction
      rw [ih _ fun u hu heq => absurd heq (hnext u hu), repairedBefore_assignment rest]
      simp only [forall_head_cons, true_imp_iff]
      cases hassigns : assigns root (before.reverse ++ .operator .set :: rest) with
      | true =>
        rw [if_pos rfl]
        split
        · rw [isChain_snoc, forall_head_cons]
          tauto
        · tauto
      | false =>
        rw [if_neg Bool.false_ne_true, isChain_dropLeft (hset _ rfl rfl)]
        tauto
    · have hnext : ∀ u ∈ rest.head?, u = .operator .set →
          (repairToken source t).result.value.operator? = none := by
        rintro u hu rfl
        rw [Token.operator?_repairToken]
        exact Token.operator?_of_precedes (hfirst _ hu) rfl
      rw [repairedBefore_token ht, ih, isChain_snoc]
      · simp only [forall_head_cons, Token.repairToken_precedes, Token.precedes_repairToken]
        tauto
      · rwa [forall_head_cons]

/-- No operator stands before anything that is taken out of arguments. -/
theorem isChain_repairArguments (hrest : rest.IsChain Token.Precedes)
    (hbefore : before.reverse.IsChain Token.Precedes)
    (hnext : ∀ p ∈ before.head?, ∀ t ∈ rest.head?, p.Precedes t) :
    (repairArguments source before rest).result.value.IsChain Token.Precedes := by
  induction rest generalizing before with
  | nil => simpa only [repairArguments, Reported.result_pure] using hbefore
  | cons t rest ih =>
    have hfirst := (List.isChain_cons.mp hrest).1
    have hprevious : ∀ p ∈ before.head?, p.Precedes t := fun p hp => hnext p hp t rfl
    have htaken {op : Operator} (hop : op.isSign = false) (ht : t = .operator op) :
        ∀ p ∈ before.head?, ∀ u ∈ rest.head?, p.Precedes u := fun p hp u _ =>
      Token.precedes_left (Token.operator?_of_precedes (ht ▸ hprevious p hp) hop) u
    rw [repairArguments]
    split
    · rename_i hop
      exact ih hrest.tail hbefore (htaken rfl (eq_of_isOperator hop))
    · split
      · rename_i hop
        rw [Bool.and_eq_true] at hop
        exact ih hrest.tail hbefore (htaken rfl (eq_of_isOperator hop.1))
      · refine ih hrest.tail (isChain_snoc.mpr ⟨hbefore, fun p hp => ?_⟩) ?_
        · exact (Token.precedes_repairToken source p t).mpr (hprevious p hp)
        · rw [forall_head_cons]
          exact fun u hu => (Token.repairToken_precedes source t u).mpr (hfirst u hu)

end

/-! Every sequence of a tree. -/

section
variable (source : String) (root : Bool) {tokens : List Token}

/-- What repair makes of a sequence so many levels down. -/
def repairedAt (level : Nat) (inside : Bool) (ts : List Token) : List Token :=
  if inside then (repairArguments source [] ts).result.value
  else (repair source (root && level = 0) ts).result.value

theorem mem_repairedAt {level : Nat} {inside : Bool} {ts : List Token} {t : Token}
    (h : t ∈ repairedAt source root level inside ts) :
    ∃ u ∈ ts, t = (repairToken source u).result.value := by
  unfold repairedAt at h
  split at h
  · exact (mem_repairArguments h).resolve_left List.not_mem_nil
  · exact (mem_repairSequence h).resolve_left List.not_mem_nil

theorem repairedAt_succ (level : Nat) (ts : List Token) :
    repairedAt source root (level + 1) false ts = (repairSequence source false [] ts).result.value := by
  simp [repairedAt, repair]

/-- Each sequence that is left is what was made of one as many levels down. -/
theorem exists_repairedAt {level : Nat} {inside : Bool} {us : List Token}
    (h : SequenceAt false (repair source root tokens).result.value level inside us) :
    ∃ ts, SequenceAt false tokens level inside ts ∧ us = repairedAt source root level inside ts := by
  induction h with
  | root => exact ⟨tokens, .root, by simp [repairedAt]⟩
  | arguments _ hm ih =>
    obtain ⟨ts, hts, rfl⟩ := ih
    obtain ⟨u, hu, heq⟩ := mem_repairedAt source root hm
    cases u with
    | call s arguments =>
      obtain ⟨rfl, rfl⟩ := Token.call.inj heq
      exact ⟨arguments, hts.arguments hu, rfl⟩
    | undefined | number _ | text _ | operator _ | name _ | group _ | conditional _ _ => cases heq
  | interior _ hm ih =>
    obtain ⟨ts, hts, rfl⟩ := ih
    obtain ⟨u, hu, heq⟩ := mem_repairedAt source root hm
    cases u with
    | group inner =>
      obtain rfl := Token.group.inj heq
      exact ⟨inner, hts.interior hu, (repairedAt_succ ..).symm⟩
    | undefined | number _ | text _ | operator _ | name _ | call _ _ | conditional _ _ => cases heq
  | whenTrue _ hm ih =>
    obtain ⟨ts, hts, rfl⟩ := ih
    obtain ⟨u, hu, heq⟩ := mem_repairedAt source root hm
    cases u with
    | conditional whenTrue whenFalse =>
      obtain ⟨rfl, rfl⟩ := Token.conditional.inj heq
      exact ⟨whenTrue, hts.whenTrue hu, (repairedAt_succ ..).symm⟩
    | undefined | number _ | text _ | operator _ | name _ | call _ _ | group _ => cases heq
  | whenFalse _ hm ih =>
    obtain ⟨ts, hts, rfl⟩ := ih
    obtain ⟨u, hu, heq⟩ := mem_repairedAt source root hm
    cases u with
    | conditional whenTrue whenFalse =>
      obtain ⟨rfl, rfl⟩ := Token.conditional.inj heq
      exact ⟨whenFalse, hts.whenFalse hu, (repairedAt_succ ..).symm⟩
    | undefined | number _ | text _ | operator _ | name _ | call _ _ | group _ => cases heq

theorem isChain_repairedAt {level : Nat} {inside : Bool} {ts : List Token}
    (h : ts.IsChain Token.Precedes) :
    (repairedAt source root level inside ts).IsChain Token.Precedes ↔
      (inside = false → Apart source (root && level = 0) [] ts) := by
  cases inside with
  | true =>
    rw [repairedAt, if_pos rfl]
    simpa using isChain_repairArguments h (by simp) (by simp)
  | false =>
    rw [repairedAt, if_neg Bool.false_ne_true, repair, isChain_repairSequence h (by simp)]
    simp

end

/-! Reading what is left. -/

theorem allReadable_iff {inside : Bool} {ts : List Token} :
    AllReadable inside ts ↔ ts.IsChain Token.Precedes ∧ ∀ t ∈ ts, t.Readable inside := by
  induction ts with
  | nil => simp [AllReadable]
  | cons t rest ih =>
    simp only [AllReadable, ih, List.isChain_cons, List.forall_mem_cons]
    tauto

theorem orderly_of_readable {tokens : List Token} (h : AllReadable false tokens) : Orderly tokens :=
  fun _ _ _ hts => (allReadable_iff.mp (h.of_sequenceAt hts)).1

theorem SequenceAt.lowered {inArguments inside : Bool} {root ts : List Token} {level : Nat}
    (h : SequenceAt inArguments root level inside ts) :
    SequenceAt inArguments (lowerAll root) level inside (lowerAll ts) := by
  have hmem {t : Token} {ts : List Token} (ht : t ∈ ts) : t.lowered ∈ lowerAll ts := by
    rw [lowerAll_eq_map]
    exact List.mem_map_of_mem ht
  induction h with
  | root => exact .root
  | arguments _ hm ih => exact ih.arguments (hmem hm)
  | interior _ hm ih => exact ih.interior (hmem hm)
  | whenTrue _ hm ih => exact ih.whenTrue (hmem hm)
  | whenFalse _ hm ih => exact ih.whenFalse (hmem hm)

theorem orderly_of_lowered {tokens : List Token} (h : Orderly (lowerAll tokens)) : Orderly tokens := by
  intro level inside ts hts
  have hchain := h _ _ _ hts.lowered
  rw [lowerAll_eq_map, List.isChain_map] at hchain
  refine hchain.imp fun p t hpt => ?_
  cases p <;> cases t <;> exact hpt

section
variable {source : String} {tokens : List Token}

/-- What is left of a sequence that can be spelled is one too, as long as it is in order. -/
theorem spelled_repaired {repaired : List Token} (horder : Orderly repaired) (levels : Nat) :
    ∀ {level : Nat} {inside : Bool} {ts us : List Token}, SequenceAt false repaired level inside us →
      (∀ u ∈ us, ∃ t ∈ ts, u = (repairToken source t).result.value) → AllReadable inside ts →
        AllExact ts → sequenceLevels ts ≤ levels →
          AllReadable inside us ∧ AllExact us ∧ sequenceLevels us ≤ levels := by
  induction levels with
  | zero =>
    intro level inside ts us _ hmem _ _ hlevels
    have hnone : us = [] := by
      refine List.eq_nil_iff_forall_not_mem.mpr fun u hu => ?_
      obtain ⟨t, ht, -⟩ := hmem u hu
      have := sequenceLevels_le_iff.mp hlevels t ht
      omega
    subst hnone
    exact ⟨trivial, trivial, Nat.le_refl _⟩
  | succ levels ih =>
    intro level inside ts us hus hmem hreadable hexact hlevels
    have htoken : ∀ u ∈ us, u.Readable inside ∧ u.Exact ∧ u.levels + 1 ≤ levels + 1 := by
      intro u hu
      obtain ⟨t, ht, rfl⟩ := hmem u hu
      have hr := hreadable.readable t ht
      have he := allExact_iff.mp hexact t ht
      have hl := sequenceLevels_le_iff.mp hlevels t ht
      cases t with
      | undefined | number _ | text _ | operator _ | name _ => exact ⟨hr, he, hl⟩
      | call s arguments =>
        simp only [Token.Readable] at hr
        simp only [Token.Exact] at he
        simp only [Token.levels] at hl
        obtain ⟨hr', he', hl'⟩ := ih (hus.arguments hu)
          (fun v hv => (mem_repairArguments hv).resolve_left List.not_mem_nil) hr.2 he (by omega)
        exact ⟨⟨hr.1, hr'⟩, he', Nat.succ_le_succ hl'⟩
      | group inner =>
        simp only [Token.Readable] at hr
        simp only [Token.Exact] at he
        simp only [Token.levels] at hl
        obtain ⟨hr', he', hl'⟩ := ih (hus.interior hu)
          (fun v hv => (mem_repairSequence hv).resolve_left List.not_mem_nil) hr he (by omega)
        exact ⟨hr', he', Nat.succ_le_succ hl'⟩
      | conditional _ _ => simp only [Token.Exact] at he
    exact ⟨allReadable_iff.mpr ⟨horder _ _ _ hus, fun u hu => (htoken u hu).1⟩,
      allExact_iff.mpr fun u hu => (htoken u hu).2.1,
      sequenceLevels_le_iff.mpr fun u hu => (htoken u hu).2.2⟩

/-- The canonical text of what is left is read as that again exactly if it is in order. -/
theorem tokenize_describe_repaired {limit : Nat} (root : Bool) (hreadable : AllReadable false tokens)
    (hexact : AllExact tokens) (hlevels : sequenceLevels tokens ≤ limit + 1) :
    (tokenize limit (describe (repair source root tokens).result.value)).result =
        lowerAll (repair source root tokens).result.value ↔
      Orderly (repair source root tokens).result.value := by
  constructor
  · intro h
    refine orderly_of_lowered ?_
    rw [← h]
    exact orderly_of_readable (allReadable_tokenize limit _)
  · intro h
    obtain ⟨hr, he, hl⟩ := spelled_repaired h (limit + 1) .root
      (fun v hv => (mem_repairSequence hv).resolve_left List.not_mem_nil) hreadable hexact hlevels
    rw [tokenize_canonical limit hr]
    exact inverts (limit + 1) hr he hl

/-- Repair leaves operators in order exactly if no misplaced `=` that is taken out of a sequence that is
left brings two together that may not stand side by side. Without conditionals, the canonical text of the
repaired formula is read as the formula exactly then. -/
theorem orderly_repair (source : String) (root : Bool) (h : Orderly tokens) :
    let repaired := (repair source root tokens).result.value
    (Orderly repaired ↔ ∀ level ts, SequenceAt false tokens level false ts →
      SequenceAt false repaired level false (repairedAt source root level false ts) →
        Apart source (root && level = 0) [] ts) ∧
    ∀ limit, AllReadable false tokens → AllExact tokens → sequenceLevels tokens ≤ limit + 1 →
      ((tokenize limit (describe repaired)).result = lowerAll repaired ↔ Orderly repaired) := by
  intro repaired
  refine ⟨⟨?_, ?_⟩, fun limit hreadable hexact hlevels =>
    tokenize_describe_repaired root hreadable hexact hlevels⟩
  · intro horder level ts hts hleft
    exact (isChain_repairedAt source root (h _ _ _ hts)).mp (horder _ _ _ hleft) rfl
  · intro hapart level inside us hus
    obtain ⟨ts, hts, rfl⟩ := exists_repairedAt source root hus
    refine (isChain_repairedAt source root (h _ _ _ hts)).mpr ?_
    rintro rfl
    exact hapart _ _ hts hus

end

theorem orderly_repair_sum :
    Orderly (repair "x + 1 = -3" true [.name "x", .operator .add, .number 1, .operator .set,
      .operator .sub, .number 3]).result.value := by
  have hx : IsReference "x" := ⟨.simple rfl (List.all_eq_true.mp rfl), by decide⟩
  have hone : Unsigned 1 ∧ (1 : Float).isFinite := by
    unfold Unsigned
    decide +kernel
  have hthree : Unsigned 3 ∧ (3 : Float).isFinite := by
    unfold Unsigned
    decide +kernel
  have hreadable : AllReadable false [.name "x", .operator .add, .number 1, .operator .set,
      .operator .sub, .number 3] := by
    simp [AllReadable, Token.Readable, Token.Precedes, Operator.Precedes, Operator.isSign, hx, hone,
      hthree]
  refine ((orderly_repair _ true (orderly_of_readable hreadable)).2 128 hreadable ?_ ?_).mp ?_
  · simp [AllExact, Token.Exact, hone, hthree]
  · simp [sequenceLevels, Token.levels]
  · decide +kernel

/-- Two signs come together, and are read as another one. -/
theorem not_orderly_repair_signs :
    Orderly (tokenize 128 "!1 = !3").result ∧
      (repair "!1 = !3" true (tokenize 128 "!1 = !3").result).result.value =
        [.operator .not, .operator .not, .number 3] ∧
      ¬Orderly [.operator .not, .operator .not, .number 3] ∧
      (tokenize 128 (describe [.operator .not, .operator .not, .number 3])).result =
        [.operator .notNot, .number 3] := by
  refine ⟨orderly_of_readable (allReadable_tokenize 128 _), by decide +kernel, fun h => ?_,
    by decide +kernel⟩
  have hchain := h _ _ _ .root
  simp [Token.Precedes, Operator.Precedes, Operator.isSign] at hchain

end Reckon
