import Reckon.Formula
import Reckon.Proofs.ReductionRuns
import Reckon.Proofs.RepairPlacement
import Reckon.Proofs.SourceWellFormed

/-!
The `=` and the separators of a formula.

Reading keeps separators to arguments, and repair keeps `=` to the start of the root and separators
behind filled arguments. Every sequence of the formula is placed then, so evaluation meets neither as
an operator between operands, and the arguments of each call are one for each run between separators.
-/

namespace Reckon

/-! Repair keeps what does not depend on the sequences inside a token. -/

section Every

variable {p : Bool → Token → Prop}

theorem allEvery_cons {inside : Bool} {t : Token} {ts : List Token} :
    AllEvery p inside (t :: ts) ↔ t.Every p inside ∧ AllEvery p inside ts := by
  rw [AllEvery]

theorem allEvery_reverse {inside : Bool} {ts : List Token} :
    AllEvery p inside ts.reverse ↔ AllEvery p inside ts := by
  simp only [allEvery_iff, List.mem_reverse]

theorem allEvery_dropLeft {before : List Token} (h : AllEvery p false before) :
    AllEvery p false (dropLeft before) := by
  unfold dropLeft
  split
  · exact h
  · exact (allEvery_cons.mp h).2
  · exact h

theorem allEvery_placeAssignment (source : String) (root : Bool) {before : List Token}
    (h : AllEvery p false (.operator .set :: before)) :
    AllEvery p false (placeAssignment source root before).result.value := by
  have hbefore := (allEvery_cons.mp h).2
  rw [placeAssignment_eq source root before []]
  split
  · split
    · exact h
    · exact hbefore
  · exact allEvery_dropLeft hbefore

mutual

theorem every_repairToken {source : String}
    (hp : ∀ inside t, p inside t → p inside (repairToken source t).result.value) :
    (t : Token) → {inside : Bool} → t.Every p inside →
      (repairToken source t).result.value.Every p inside
  | .group inner, _, h => by
    have hself := hp _ _ h.self
    simp only [Token.Every] at h
    have hinner := allEvery_repairSequence hp false inner [] (by simp only [AllEvery]) h.2
    simp only [repairToken, Reported.result_bind, Reported.result_pure, Token.Every] at hself ⊢
    exact ⟨hself, hinner⟩
  | .conditional whenTrue whenFalse, _, h => by
    have hself := hp _ _ h.self
    simp only [Token.Every] at h
    have htrue := allEvery_repairSequence hp false whenTrue [] (by simp only [AllEvery]) h.2.1
    have hfalse := allEvery_repairSequence hp false whenFalse [] (by simp only [AllEvery]) h.2.2
    simp only [repairToken, Reported.result_bind, Reported.result_pure, Token.Every] at hself ⊢
    exact ⟨hself, htrue, hfalse⟩
  | .call s arguments, _, h => by
    have hself := hp _ _ h.self
    simp only [Token.Every] at h
    have harguments := allEvery_repairArguments hp arguments [] (by simp only [AllEvery]) h.2
    simp only [repairToken, Reported.result_bind, Reported.result_pure, Token.Every] at hself ⊢
    exact ⟨hself, harguments⟩
  | .undefined, _, h | .number _, _, h | .text _, _, h | .operator _, _, h | .name _, _, h => h

theorem allEvery_repairSequence {source : String}
    (hp : ∀ inside t, p inside t → p inside (repairToken source t).result.value) (root : Bool) :
    (rest before : List Token) → AllEvery p false before → AllEvery p false rest →
      AllEvery p false (repairSequence source root before rest).result.value
  | [], before, h, _ => by
    rw [repairSequence]
    exact allEvery_reverse.mpr h
  | t :: rest, before, h, hrest => by
    rw [allEvery_cons] at hrest
    rw [repairSequence]
    split
    · rename_i hop
      obtain rfl := eq_of_isOperator hop
      have hplaced := allEvery_placeAssignment source root (allEvery_cons.mpr ⟨hrest.1, h⟩)
      exact allEvery_repairSequence hp root rest _ hplaced hrest.2
    · have ht := every_repairToken hp t hrest.1
      exact allEvery_repairSequence hp root rest _ (allEvery_cons.mpr ⟨ht, h⟩) hrest.2

theorem allEvery_repairArguments {source : String}
    (hp : ∀ inside t, p inside t → p inside (repairToken source t).result.value) :
    (rest before : List Token) → AllEvery p true before → AllEvery p true rest →
      AllEvery p true (repairArguments source before rest).result.value
  | [], before, h, _ => by
    rw [repairArguments]
    exact allEvery_reverse.mpr h
  | t :: rest, before, h, hrest => by
    rw [allEvery_cons] at hrest
    rw [repairArguments]
    split
    · exact allEvery_repairArguments hp rest _ h hrest.2
    · split
      · exact allEvery_repairArguments hp rest _ h hrest.2
      · have ht := every_repairToken hp t hrest.1
        exact allEvery_repairArguments hp rest _ (allEvery_cons.mpr ⟨ht, h⟩) hrest.2

end

end Every

/-! Every sequence of a placed one is placed. -/

theorem SequencePlaced.token {root : Bool} {before ts : List Token} {t : Token}
    (h : SequencePlaced root before ts) (ht : t ∈ ts) : t.Placed := by
  induction ts generalizing before with
  | nil => cases ht
  | cons u rest ih =>
    simp only [SequencePlaced] at h
    rcases List.mem_cons.mp ht with rfl | ht
    · exact h.2.1
    · exact ih h.2.2 ht

theorem ArgumentsPlaced.token {before ts : List Token} {t : Token}
    (h : ArgumentsPlaced before ts) (ht : t ∈ ts) : t.Placed := by
  induction ts generalizing before with
  | nil => cases ht
  | cons u rest ih =>
    simp only [ArgumentsPlaced] at h
    rcases List.mem_cons.mp ht with rfl | ht
    · exact h.2.2.1
    · exact ih h.2.2.2 ht

/-- Whether a sequence so many levels down is placed. -/
def PlacedAt (level : Nat) (inside : Bool) (ts : List Token) : Prop :=
  if inside then ArgumentsPlaced [] ts else SequencePlaced (level = 0) [] ts

theorem PlacedAt.token {level : Nat} {inside : Bool} {ts : List Token} {t : Token}
    (h : PlacedAt level inside ts) (ht : t ∈ ts) : t.Placed := by
  unfold PlacedAt at h
  split at h
  · exact ArgumentsPlaced.token h ht
  · exact SequencePlaced.token h ht

theorem placedAt_of_sequenceAt {root ts : List Token} {level : Nat} {inside : Bool}
    (h : SequencePlaced true [] root) (hts : SequenceAt false root level inside ts) :
    PlacedAt level inside ts := by
  induction hts with
  | root => exact h
  | arguments _ hm ih | interior _ hm ih =>
    have ht := ih.token hm
    simp only [Token.Placed] at ht
    exact ht
  | whenTrue _ hm ih =>
    have ht := ih.token hm
    simp only [Token.Placed] at ht
    exact ht.1
  | whenFalse _ hm ih =>
    have ht := ih.token hm
    simp only [Token.Placed] at ht
    exact ht.2

theorem PlacedAt.assignment {level : Nat} {inside : Bool} {before after : List Token}
    (h : PlacedAt level inside (before ++ .operator .set :: after)) :
    level = 0 ∧ ∃ s, s ≠ "" ∧ before = [.name s] := by
  unfold PlacedAt at h
  split at h
  · rw [argumentsPlaced_append] at h
    simp only [ArgumentsPlaced] at h
    exact absurd rfl h.2.1
  · rw [sequencePlaced_append, List.append_nil] at h
    simp only [SequencePlaced] at h
    obtain ⟨hlevel, target, hbefore, htarget⟩ := h.2.1 trivial
    refine ⟨of_decide_eq_true hlevel, ?_⟩
    cases target with
    | name s =>
      refine ⟨s, ?_, ?_⟩
      · rintro rfl
        simp [isTarget] at htarget
      · simpa using congrArg List.reverse hbefore
    | undefined | number _ | text _ | operator _ | call _ _ | group _ | conditional _ _ =>
      simp [isTarget] at htarget

theorem PlacedAt.separator {level : Nat} {before after : List Token}
    (h : PlacedAt level true (before ++ .operator .comma :: after)) :
    ∃ older t, before = older ++ [t] ∧ ∀ op, t ≠ .operator op := by
  unfold PlacedAt at h
  rw [if_pos rfl, argumentsPlaced_append, List.append_nil] at h
  simp only [ArgumentsPlaced] at h
  have hfull := h.2.2.1 trivial
  cases hbefore : before.reverse with
  | nil => simp [hbefore, endsOpen] at hfull
  | cons t older =>
    rw [hbefore] at hfull
    refine ⟨older.reverse, t, by simpa using congrArg List.reverse hbefore, ?_⟩
    rintro op rfl
    simp [endsOpen, Token.operator?] at hfull

/-- Arguments as the runs of tokens between separators, with or without a separator after the last. -/
inductive Slots : List (List Token) → List Token → Prop where
  | nil : Slots [] []
  | last {slot : List Token} : slot ≠ [] → .operator .comma ∉ slot → Slots [slot] slot
  | more {slot rest : List Token} {slots : List (List Token)} :
      slot ≠ [] → .operator .comma ∉ slot → Slots slots rest →
        Slots (slot :: slots) (slot ++ .operator .comma :: rest)

theorem slots_of_placed {before arguments : List Token} (h : ArgumentsPlaced before arguments)
    (hopen : endsOpen before = true) : Slots (splitArguments arguments) arguments := by
  induction hn : arguments.length using Nat.strong_induction_on generalizing before arguments with
  | _ n ih =>
  have hplain {slot : List Token} (hslot : .operator .comma ∉ slot) :
      ∀ t ∈ slot, t.isOperator .comma = false := by
    intro t ht
    rw [Bool.eq_false_iff]
    exact fun hop => hslot (eq_of_isOperator hop ▸ ht)
  by_cases hcomma : .operator .comma ∈ arguments
  · obtain ⟨slot, rest, rfl, hslot⟩ := List.eq_append_cons_of_mem hcomma
    have hrest := (argumentsPlaced_append.mp h).2
    simp only [ArgumentsPlaced] at hrest
    have hne : slot ≠ [] := by
      rintro rfl
      rw [List.reverse_nil, List.nil_append, hopen] at hrest
      exact Bool.noConfusion (hrest.2.1 trivial)
    rw [splitArguments_append_comma (hplain hslot)]
    refine .more hne hslot (ih rest.length ?_ hrest.2.2.2 rfl rfl)
    simp only [← hn, List.length_append, List.length_cons]
    omega
  · cases harguments : arguments with
    | nil => exact .nil
    | cons t rest =>
      rw [← harguments, splitArguments_of_ne_nil (hplain hcomma) (by simp [harguments])]
      exact .last (by simp [harguments]) hcomma

/-! The tokens that are evaluated. -/

theorem SequenceAt.of_append {before body ts : List Token} {level : Nat} {inside : Bool}
    (h : SequenceAt false body level inside ts) :
    level = 0 ∧ inside = false ∧ ts = body ∨
      level ≠ 0 ∧ SequenceAt false (before ++ body) level inside ts := by
  have hroot {t : Token} {level : Nat} {inside : Bool} {ts : List Token} (ht : t ∈ ts)
      (ih : level = 0 ∧ inside = false ∧ ts = body ∨
        level ≠ 0 ∧ SequenceAt false (before ++ body) level inside ts) :
      ∃ us, SequenceAt false (before ++ body) level inside us ∧ t ∈ us := by
    rcases ih with ⟨rfl, rfl, rfl⟩ | ⟨-, hts⟩
    · exact ⟨_, .root, List.mem_append_right before ht⟩
    · exact ⟨ts, hts, ht⟩
  induction h with
  | root => exact .inl ⟨rfl, rfl, rfl⟩
  | arguments _ hm ih =>
    obtain ⟨us, hus, ht⟩ := hroot hm ih
    exact .inr ⟨Nat.succ_ne_zero _, hus.arguments ht⟩
  | interior _ hm ih =>
    obtain ⟨us, hus, ht⟩ := hroot hm ih
    exact .inr ⟨Nat.succ_ne_zero _, hus.interior ht⟩
  | whenTrue _ hm ih =>
    obtain ⟨us, hus, ht⟩ := hroot hm ih
    exact .inr ⟨Nat.succ_ne_zero _, hus.whenTrue ht⟩
  | whenFalse _ hm ih =>
    obtain ⟨us, hus, ht⟩ := hroot hm ih
    exact .inr ⟨Nat.succ_ne_zero _, hus.whenFalse ht⟩

theorem splitTarget_append (tokens : List Token) :
    ∃ before, tokens = before ++ (splitTarget tokens).2 := by
  unfold splitTarget
  split
  · rename_i s rest
    split
    · exact ⟨[], rfl⟩
    · exact ⟨[.name s, .operator .set], rfl⟩
  · exact ⟨[], rfl⟩

theorem splitTarget_assignment {s : String} (hs : s ≠ "") (rest : List Token) :
    splitTarget (.name s :: .operator .set :: rest) = (some s, rest) := by
  have hempty : s.isEmpty = false := by simpa using hs
  rw [splitTarget, hempty]
  rfl

/-- No `=` is left at the start of what is evaluated if it stands only where it may. -/
theorem set_not_mem_body {tokens : List Token} (h : PlacedAt 0 false tokens) :
    .operator .set ∉ (splitTarget tokens).2 := by
  intro hm
  obtain ⟨before, htokens⟩ := splitTarget_append tokens
  obtain ⟨more, after, hbody⟩ := List.append_of_mem hm
  rw [hbody, ← List.append_assoc] at htokens
  rw [htokens] at h
  obtain ⟨-, s, hs, hbefore⟩ := h.assignment
  rw [htokens, hbefore, List.singleton_append, splitTarget_assignment hs] at hbody
  have hlength := congrArg List.length hbody
  simp only [List.length_append, List.length_cons] at hlength
  omega

namespace Formula

/-- Whether a call stands somewhere in a formula. -/
def Calls (f : Formula) (s : String) (arguments : List Token) : Prop :=
  ∃ inside, TokenAt false f.tokens inside (.call s arguments)

/-- Where the `=` and the separators of a formula stand, and what evaluation makes of them: no operator
of theirs between operands is ever met, and evaluation cannot tell apart two scopes that differ only in
what functions give for other numbers of arguments than calls of the formula have slots. -/
structure Separated (f : Formula) : Prop where
  assignment {level inside before after} :
    SequenceAt false f.tokens level inside (before ++ .operator .set :: after) →
      level = 0 ∧ ∃ s, s ≠ "" ∧ before = [.name s]
  separator {level inside before after} :
    SequenceAt false f.tokens level inside (before ++ .operator .comma :: after) →
      inside = true ∧ ∃ older t, before = older ++ [t] ∧ ∀ op, t ≠ .operator op
  expected (scope : Scope) (op : Operator) :
    ∀ d ∈ (f.evaluate scope).1.diagnostics, d.cause ≠ .unexpectedOperator op
  slots {s arguments} : f.Calls s arguments → Slots (splitArguments arguments) arguments
  passed {s arguments} (scope : Scope) (settle : Settle) (function : Function) :
    f.Calls s arguments → scope.functions.get? s = some function →
      ∃ values, values.length = (splitArguments arguments).length ∧
        (performCall scope settle s arguments).run.result = (function values).map .ofValue
  counted (scope scope' : Scope) :
    Scope.Alike f.Calls scope scope' → f.evaluate scope = f.evaluate scope'

/-- What holds of the tokens of a formula when it is evaluated. -/
def Evaluates (f : Formula) (inside : Bool) (t : Token) : Prop :=
  t ≠ .operator .set ∧ (t = .operator .comma → inside = true) ∧
    ∀ s arguments, t = .call s arguments → f.Calls s arguments

theorem keeps_evaluates (f : Formula) (scope : Scope) :
    RunKeeps scope f.limit f.Evaluates fun cause => ∀ op, cause ≠ .unexpectedOperator op where
  value t h := by
    obtain rfl | ⟨_, rfl⟩ | ⟨_, rfl⟩ := value_cases h <;> simp [Evaluates]
  conditional _ _ := by simp [Evaluates]
  slot _ h hc := ⟨h.1, fun he => absurd he hc, h.2.2⟩
  ordinary cause h op he := by
    rw [he] at h
    exact Bool.noConfusion h
  unexpected op h hop := by
    rcases hop with rfl | rfl
    · exact absurd rfl h.1
    · exact Bool.noConfusion (h.2.1 rfl)
  failed _ _ _ := by simp

section Read

variable (limit : Nat) (source : String)

theorem placed_read {level : Nat} {inside : Bool} {ts : List Token}
    (h : SequenceAt false (read limit source).tokens level inside ts) : PlacedAt level inside ts :=
  placedAt_of_sequenceAt (placed_repair source true _) h

theorem named_read {inside : Bool} {t : Token}
    (h : TokenAt false (read limit source).tokens inside t) :
    (t = .operator .comma → inside = true) ∧ ∀ s arguments, t = .call s arguments → s ≠ "" := by
  have hwell := (wellFormed_tokenize limit source).1
  have hread : AllEvery (fun inside t => (t = .operator .comma → inside = true) ∧
      ∀ s arguments, t = .call s arguments → s ≠ "") false (tokenize limit source).result := by
    refine (allEvery_tokenAt false _).mono fun inside t ⟨level, ts, hts, ht⟩ => ⟨?_, ?_⟩
    · rintro rfl
      exact hwell.comma hts ht
    · rintro s arguments rfl rfl
      cases (hwell.call hts ht).1
  have hrepaired : AllEvery _ false (read limit source).tokens :=
    allEvery_repairSequence ?_ true _ [] (by simp only [AllEvery]) hread
  · exact hrepaired.of_tokenAt h
  · intro inside t ⟨hcomma, hcall⟩
    refine ⟨fun hvalue => hcomma (eq_of_isOperator (isOperator_of_repairToken hvalue)), ?_⟩
    intro s arguments hvalue
    cases t with
    | call s' arguments' =>
      obtain ⟨rfl, -⟩ := Token.call.inj hvalue
      exact hcall _ _ rfl
    | undefined | number _ | text _ | operator _ | name _ | group _ | conditional _ _ =>
      exact Token.noConfusion hvalue

theorem evaluates_read :
    AllEvery (read limit source).Evaluates false (splitTarget (read limit source).tokens).2 := by
  have hset := set_not_mem_body (placed_read limit source .root)
  obtain ⟨before, htokens⟩ := splitTarget_append (read limit source).tokens
  generalize (splitTarget (read limit source).tokens).2 = body at hset htokens ⊢
  refine (allEvery_tokenAt false body).mono fun inside t ⟨level, ts, hts, ht⟩ => ?_
  have hwhole : level = 0 ∧ inside = false ∧ ts = body ∨
      level ≠ 0 ∧ SequenceAt false (before ++ body) level inside ts := hts.of_append
  rw [← htokens] at hwhole
  have hat : TokenAt false (read limit source).tokens inside t := by
    rcases hwhole with ⟨rfl, rfl, rfl⟩ | ⟨-, hts⟩
    · exact ⟨0, _, .root, htokens ▸ List.mem_append_right before ht⟩
    · exact ⟨level, ts, hts, ht⟩
  refine ⟨?_, (named_read limit source hat).1, ?_⟩
  · rintro rfl
    rcases hwhole with ⟨rfl, rfl, rfl⟩ | ⟨hlevel, hts⟩
    · exact hset ht
    · obtain ⟨more, after, rfl⟩ := List.append_of_mem ht
      exact hlevel (placed_read limit source hts).assignment.1
  · rintro s arguments rfl
    exact ⟨inside, hat⟩

/-- The `=` and the separators of every formula that is read are in their places. -/
theorem separated_read : (read limit source).Separated where
  assignment h := (placed_read limit source h).assignment
  separator h := by
    have hinside := (named_read limit source ⟨_, _, h, by simp⟩).1 rfl
    subst hinside
    exact ⟨rfl, (placed_read limit source h).separator⟩
  expected scope op d hd := by
    have htwin := ((read limit source).keeps_evaluates scope).twin_evaluateTokens (.refl _ scope)
      (evaluates_read limit source) fun _ _ _ => nofun
    exact htwin.causes d hd op
  slots := by
    rintro s arguments ⟨inside, level, ts, hts, ht⟩
    have hplaced := placed_read limit source (hts.arguments ht)
    exact slots_of_placed hplaced rfl
  passed {s arguments} scope settle function := by
    rintro ⟨inside, hat⟩ hf
    have hs : s.isEmpty = false := by simpa using (named_read limit source hat).2 s arguments rfl
    refine ⟨_, length_argumentValues settle _, ?_⟩
    rw [result_performCall, hs, hf]
    rfl
  counted scope scope' h := by
    have hcalls : Scope.Alike (fun s arguments =>
        (read limit source).Evaluates false (.call s arguments)) scope scope' :=
      ⟨h.store, h.names, fun s arguments hc => h.outcome s arguments (hc.2.2 s arguments rfl)⟩
    have htwin := ((read limit source).keeps_evaluates scope).twin_evaluateTokens hcalls
      (evaluates_read limit source) fun _ _ _ => nofun
    have heq : evaluateTokens (read limit source).limit scope (read limit source).tokens =
      evaluateTokens (read limit source).limit scope' (read limit source).tokens := htwin.eq
    simp only [evaluate, heq]

end Read

end Formula

end Reckon
