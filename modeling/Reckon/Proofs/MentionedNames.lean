import Reckon.Proofs.AlikeTokens
import Reckon.Proofs.NestedReduction
import Reckon.Proofs.ReductionTokens

/-!
Evaluation depends on the names that it mentions and on no other, and not on their letter case.

Two evaluations run side by side: of alike tokens, under tables that agree on the names in them. Every
step of the one is matched by a step of the other, which leaves alike tokens and reports as much. Only
the texts of diagnostics may differ: by the spelling of names and by what is suggested for unknown ones.
-/

namespace Reckon

/-- Causes that tell of the same, but for the spelling of names and what is suggested for them. -/
inductive Cause.Alike (names calls : String → String → Prop) : Cause → Cause → Prop where
  | refl (cause : Cause) : Cause.Alike names calls cause cause
  | unknownVariable {s s' : String} (hint hint' : String) :
      names s s' → Cause.Alike names calls (.unknownVariable s hint) (.unknownVariable s' hint')
  | unknownFunction {s s' : String} (hint hint' : String) :
      calls s s' → Cause.Alike names calls (.unknownFunction s hint) (.unknownFunction s' hint')
  | nothingToAssign {s s' : String} :
      names s s' → Cause.Alike names calls (.nothingToAssign s) (.nothingToAssign s')
  | ambiguousResult {ts us : List Token} :
      AllAlike names calls ts us →
      Cause.Alike names calls (.ambiguousResult (describe ts)) (.ambiguousResult (describe us))

/-- Diagnostics for alike causes at the same place. -/
structure Diagnostic.Alike (names calls : String → String → Prop) (d d' : Diagnostic) : Prop where
  cause : d.cause.Alike names calls d'.cause
  span : d.span? = d'.span?

namespace Reported

variable {α β γ δ : Type} {names calls : String → String → Prop} {R : α → β → Prop}
  {S : γ → δ → Prop}

/-- Two results that are related, with alike diagnostics. -/
structure Alike (names calls : String → String → Prop) (R : α → β → Prop) (x : Reported α)
    (y : Reported β) : Prop where
  result : R x.result y.result
  diagnostics : List.Forall₂ (Diagnostic.Alike names calls) x.diagnostics y.diagnostics

namespace Alike

protected theorem pure {a : α} {b : β} (h : R a b) : Alike names calls R (pure a) (pure b) :=
  ⟨h, .nil⟩

protected theorem refl {R : α → α → Prop} (x : Reported α) (h : R x.result x.result) :
    Alike names calls R x x :=
  ⟨h, List.forall₂_same.mpr fun d _ => ⟨.refl d.cause, rfl⟩⟩

theorem bind_result {x : Reported α} {y : Reported β} {f : α → Reported γ} {g : β → Reported δ}
    (h : Alike names calls R x y) (hf : Alike names calls S (f x.result) (g y.result)) :
    Alike names calls S (x >>= f) (y >>= g) :=
  ⟨hf.result, List.rel_append h.diagnostics hf.diagnostics⟩

protected theorem bind {x : Reported α} {y : Reported β} {f : α → Reported γ} {g : β → Reported δ}
    (h : Alike names calls R x y) (hf : ∀ a b, R a b → Alike names calls S (f a) (g b)) :
    Alike names calls S (x >>= f) (y >>= g) :=
  h.bind_result (hf _ _ h.result)

protected theorem report {cause cause' : Cause} (h : cause.Alike names calls cause') :
    Alike names calls (fun _ _ => True) (Reckon.report cause) (Reckon.report cause') :=
  ⟨trivial, .cons ⟨h, rfl⟩ .nil⟩

/-- A report before two results that are alike. -/
theorem report_bind {cause cause' : Cause} (hcause : cause.Alike names calls cause')
    {f : Unit → Reported γ} {g : Unit → Reported δ} (h : Alike names calls S (f ()) (g ())) :
    Alike names calls S (Reckon.report cause >>= f) (Reckon.report cause' >>= g) :=
  .bind (.report hcause) fun _ _ _ => h

end Alike

end Reported

/-! Combining the first operand. -/

/-- Steps that leave alike sequences. -/
inductive Step.Alike (names calls : String → String → Prop) : Step → Step → Prop where
  | stalled : Step.Alike names calls .stalled .stalled
  | progressed {ts us : List Token} :
      AllAlike names calls ts us → Step.Alike names calls (.progressed ts) (.progressed us)

section Operators

variable {names calls : String → String → Prop}

theorem getD_alike {α β : Type} {R : α → β → Prop} {o : Option α} {o' : Option β} {d : α} {d' : β}
    (h : Option.Rel R o o') (hd : R d d') : R (o.getD d) (o'.getD d') := by
  cases h with
  | none => exact hd
  | some h => exact h

variable {lhs lhs' : Token} {ts us : List Token} (hlhs : lhs.Alike names calls lhs')
  (h : AllAlike names calls ts us)

include hlhs h

theorem applyToOperands_alike (op : Operator) :
    Reported.Alike names calls (AllAlike names calls) (applyToOperands lhs op ts)
      (applyToOperands lhs' op us) := by
  cases h with
  | nil => exact .pure (.cons hlhs .nil)
  | @cons t u more more' ht hmore =>
    have hbinary : Reported.Alike names calls (Token.Alike names calls) (applyBinary op lhs t)
        (applyBinary op lhs' u) := by
      rw [← applyBinary_alike op hlhs ht]
      exact .refl _ (.of_isValue (isValue_applyBinary op lhs t))
    cases ht with
    | operator found =>
      exact .report_bind (.refl _) (.pure (.cons hlhs (.cons (.operator found) hmore)))
    | undefined | number _ | text _ | name _ | call _ _ | group _ | conditional _ _ =>
      exact hbinary.bind fun _ _ htoken => .pure (.cons htoken hmore)

theorem applyOperator_alike (op : Operator) :
    Reported.Alike names calls (AllAlike names calls) (applyOperator lhs op ts)
      (applyOperator lhs' op us) := by
  have hoperands : AllAlike names calls ((foldSign ts).getD ts) ((foldSign us).getD us) :=
    getD_alike (foldSign_alike h) h
  have hfolded := foldSign_alike (.cons (.operator op) h)
  cases h with
  | nil => exact .report_bind (.refl _) (.pure (.cons hlhs .nil))
  | @cons t u rest rest' ht hrest =>
    cases op with
    | not | notNot =>
      unfold applyOperator
      dsimp only
      generalize foldSign (.operator _ :: t :: rest) = folded,
        foldSign (.operator _ :: u :: rest') = folded' at hfolded ⊢
      cases hfolded with
      | none => exact .report_bind (.refl _) (.pure (.cons hlhs (.cons ht hrest)))
      | some hfolded => exact .pure (.cons hlhs hfolded)
    | set | comma => exact .report_bind (.refl _) (.pure (.cons hlhs (.cons ht hrest)))
    | _ => exact applyToOperands_alike hlhs hoperands _

end Operators

theorem mergeAdjacent_alike {names calls : String → String → Prop} {first second : Token}
    (hfirst : first.isValue) (hsecond : second.isValue) :
    Reported.Alike names calls (Token.Alike names calls) (mergeAdjacent first second)
      (mergeAdjacent first second) := by
  refine .refl _ ?_
  rcases mergeAdjacent_cases first second with hv | he | he
  · exact .of_isValue hv
  · rw [he]
    exact .of_isValue hfirst
  · rw [he]
    exact .of_isValue hsecond

/-- Alike sequences in which only operators are left to apply take alike steps. -/
theorem applyFirst_alike {names calls : String → String → Prop} {ts us : List Token}
    (h : AllAlike names calls ts us) (hplain : ∀ t ∈ ts, t.isPlain) :
    Reported.Alike names calls (Step.Alike names calls) (applyFirst ts) (applyFirst us) := by
  cases h with
  | nil => exact .pure .stalled
  | @cons _ _ rest rest' ht hrest =>
    cases ht with
    | name _ | call _ _ | group _ =>
      have ht := hplain _ (List.mem_cons_self ..)
      simp [Token.isPlain] at ht
    | conditional htrue hfalse => exact .report_bind (.refl _) (.pure (.progressed hrest))
    | operator op =>
      have hfolded : Option.Rel (AllAlike names calls)
          (if op.isSign then foldSign (.operator op :: rest) else none)
          (if op.isSign then foldSign (.operator op :: rest') else none) := by
        split
        · exact foldSign_alike (.cons (.operator op) hrest)
        · exact .none
      have hempty : rest.isEmpty = rest'.isEmpty := by cases hrest <;> rfl
      unfold applyFirst
      dsimp only
      rw [hempty]
      split
      · exact .report_bind (.refl _) (.pure (.progressed (.cons (.number 0.0) .nil)))
      · generalize (if op.isSign then foldSign (.operator op :: rest) else none) = folded,
          (if op.isSign then foldSign (.operator op :: rest') else none) = folded' at hfolded
        cases hfolded with
        | none => exact .report_bind (.refl _) (.pure (.progressed hrest))
        | some hfolded => exact .pure (.progressed hfolded)
    | undefined | number _ | text _ =>
      cases hrest with
      | nil => exact .pure .stalled
      | cons hnext hmore =>
        cases hnext with
        | name _ | call _ _ | group _ =>
          have hnext := hplain _ (List.mem_cons_of_mem _ (List.mem_cons_self ..))
          simp [Token.isPlain] at hnext
        | conditional htrue hfalse =>
          refine .pure (.progressed (.cons (chooseBranch_alike ?_ htrue hfalse) hmore))
          exact .of_isValue rfl
        | operator op =>
          refine (applyOperator_alike ?_ hmore op).bind fun _ _ htokens => .pure (.progressed htokens)
          exact .of_isValue rfl
        | undefined | number _ | text _ =>
          exact (mergeAdjacent_alike rfl rfl).bind fun _ _ htoken =>
            .pure (.progressed (.cons htoken hmore))

/-! Names. -/

theorem lowerFrom_ne_nil (before : List Char) (c : Char) (rest : List Char) :
    lowerFrom before (c :: rest) ≠ [] := by
  have hchar : lowerChar c ≠ [] := by
    unfold lowerChar
    split
    · simp
    · split
      · simp
      · split <;> simp
  rw [lowerFrom]
  split
  · split <;> simp
  · simp [hchar]

theorem foldName_eq_empty {s : String} : foldName s = "" ↔ s = "" := by
  constructor
  · intro h
    have hchars : lowerFrom [] s.toList = [] := by
      simpa [foldName, lowerText] using congrArg String.toList h
    cases hs : s.toList with
    | nil => exact String.toList_eq_nil_iff.mp hs
    | cons c rest => exact absurd (hs ▸ hchars) (lowerFrom_ne_nil [] c rest)
  · rintro rfl
    rfl

theorem isEmpty_of_foldName {s s' : String} (h : foldName s = foldName s') :
    s.isEmpty = s'.isEmpty := by
  have hempty : s = "" ↔ s' = "" := by rw [← foldName_eq_empty, h, foldName_eq_empty]
  rw [Bool.eq_iff_iff, String.isEmpty_iff, String.isEmpty_iff, hempty]

/-! Attempts. -/

/-- Outcomes that are related, or the same failure. -/
inductive OutcomeAlike {α β : Type} (R : α → β → Prop) : Except Failure α → Except Failure β → Prop where
  | ok {a : α} {b : β} : R a b → OutcomeAlike R (.ok a) (.ok b)
  | error (failure : Failure) : OutcomeAlike R (.error failure) (.error failure)

/-- Two attempts with related outcomes and alike diagnostics. -/
abbrev Attempt.Alike {α β : Type} (names calls : String → String → Prop) (R : α → β → Prop)
    (x : Attempt α) (y : Attempt β) : Prop :=
  Reported.Alike names calls (OutcomeAlike R) x.run y.run

namespace Attempt.Alike

variable {α β γ δ : Type} {names calls : String → String → Prop} {R : α → β → Prop}
  {S : γ → δ → Prop}

protected theorem pure {a : α} {b : β} (h : R a b) : Attempt.Alike names calls R (pure a) (pure b) :=
  Reported.Alike.pure (.ok h)

protected theorem lift {x : Reported α} {y : Reported β} (h : Reported.Alike names calls R x y) :
    Attempt.Alike names calls R (liftM x) (liftM y) := by
  refine ⟨.ok h.result, ?_⟩
  rw [ExceptT.run_liftM, ExceptT.run_liftM, Reported.diagnostics_map, Reported.diagnostics_map]
  exact h.diagnostics

protected theorem bind {x : Attempt α} {y : Attempt β} {f : α → Attempt γ} {g : β → Attempt δ}
    (h : Attempt.Alike names calls R x y)
    (hf : ∀ a b, x.run.result = .ok a → R a b → Attempt.Alike names calls S (f a) (g b)) :
    Attempt.Alike names calls S (x >>= f) (y >>= g) := by
  unfold Attempt.Alike
  simp only [ExceptT.run_bind]
  refine Reported.Alike.bind_result h ?_
  have hresult := h.result
  cases hx : x.run.result with
  | ok a =>
    rw [hx] at hresult
    generalize y.run.result = outcome at hresult ⊢
    cases hresult with
    | ok hr => exact hf _ _ hx hr
  | error failure =>
    rw [hx] at hresult
    generalize y.run.result = outcome at hresult ⊢
    cases hresult with
    | error => exact .pure (.error failure)

theorem report_bind {cause cause' : Cause} (hcause : cause.Alike names calls cause')
    {f : Unit → Attempt γ} {g : Unit → Attempt δ}
    (h : Attempt.Alike names calls S (f ()) (g ())) :
    Attempt.Alike names calls S (liftM (report cause) >>= f) (liftM (report cause') >>= g) :=
  (Attempt.Alike.lift (.report hcause)).bind fun _ _ _ _ => h

end Attempt.Alike

/-! The phases of a step. -/

/-- Tables that agree on names that are related. -/
structure Scope.Agrees (names calls : String → String → Prop) (scope scope' : Scope) : Prop where
  folded {s s' : String} : names s s' → foldName s = foldName s'
  store {s s' : String} : names s s' → scope.store.get? s = scope'.store.get? s'
  called {s s' : String} : calls s s' → foldName s = foldName s'
  functions {s s' : String} : calls s s' → scope.functions.get? s = scope'.functions.get? s'

/-- Two ways to reduce nested sequences that do so alike with alike ones. -/
def Settle.Alike (names calls : String → String → Prop) (settle settle' : Settle) : Prop :=
  ∀ place {ts us : List Token}, AllAlike names calls ts us →
    Reported.Alike names calls (AllAlike names calls) (settle place ts) (settle' place us)

section Phases

variable {names calls : String → String → Prop} {scope scope' : Scope} {settle settle' : Settle}
  (hagrees : Scope.Agrees names calls scope scope') (hsettle : Settle.Alike names calls settle settle')

include hagrees in
theorem lookup_alike {s s' : String} (h : names s s') :
    Reported.Alike names calls (Token.Alike names calls) (lookup scope.store s)
      (lookup scope'.store s') := by
  unfold lookup
  rw [hagrees.store h, hagrees.folded h]
  split
  · exact .pure (.text "")
  · rename_i value _ _
    exact .pure (.of_isValue (Token.isValue_of_weight (Token.weight_ofValue value)))
  · split
    · exact .pure (.number _)
    · exact .report_bind (.unknownVariable _ _ h) (.pure (.text ""))

include hagrees in
theorem resolveNames_alike {ts us : List Token} (h : AllAlike names calls ts us) :
    Reported.Alike names calls (AllAlike names calls) (resolveNames scope.store ts)
      (resolveNames scope'.store us) := by
  induction h with
  | nil => exact .pure .nil
  | cons ht _ ih =>
    have hkept {t u : Token} (ht : t.Alike names calls u) :
        Reported.Alike names calls (AllAlike names calls)
          (resolveNames scope.store _ >>= fun rest => pure (t :: rest))
          (resolveNames scope'.store _ >>= fun rest => pure (u :: rest)) :=
      ih.bind fun _ _ hrest => .pure (.cons ht hrest)
    cases ht with
    | name hs => exact (lookup_alike hagrees hs).bind fun _ _ ht => hkept ht
    | undefined => exact hkept .undefined
    | number n => exact hkept (.number n)
    | text s => exact hkept (.text s)
    | operator op => exact hkept (.operator op)
    | call hs harguments => exact hkept (.call hs harguments)
    | group hinner => exact hkept (.group hinner)
    | conditional htrue hfalse => exact hkept (.conditional htrue hfalse)

include hsettle in
theorem argumentValues_alike {slots slots' : List (List Token)}
    (h : List.Forall₂ (AllAlike names calls) slots slots') :
    Reported.Alike names calls (· = ·) (argumentValues settle slots)
      (argumentValues settle' slots') := by
  induction h with
  | nil => exact .pure rfl
  | cons hslot _ ih =>
    refine (hsettle .argument hslot).bind fun reduced reduced' hreduced => ?_
    refine ih.bind fun values values' hvalues => .pure ?_
    rw [hvalues]
    congr 1
    match hreduced with
    | .nil | .cons _ (.cons _ _) => rfl
    | .cons ht .nil => exact ht.toValue_eq

include hagrees hsettle in
theorem performCall_alike {s s' : String} {arguments arguments' : List Token} (hs : calls s s')
    (h : AllAlike names calls arguments arguments') :
    Attempt.Alike names calls (Token.Alike names calls) (performCall scope settle s arguments)
      (performCall scope' settle' s' arguments') := by
  unfold performCall
  rw [isEmpty_of_foldName (hagrees.called hs), hagrees.functions hs]
  split
  · exact .report_bind (.refl _) (.pure .undefined)
  · split
    · exact .report_bind (.unknownFunction _ _ hs) (.pure .undefined)
    · rename_i function _
      refine (Attempt.Alike.lift (argumentValues_alike hsettle (splitArguments_alike h))).bind
        fun values values' _ hvalues => ?_
      subst hvalues
      cases function values with
      | ok value =>
        exact .pure (.of_isValue (Token.isValue_of_weight (Token.weight_ofValue value)))
      | error failure => exact Reported.Alike.pure (.error failure)

include hagrees hsettle in
theorem resolveCall_alike {ts us : List Token} (h : AllAlike names calls ts us) :
    Attempt.Alike names calls (Option.Rel (AllAlike names calls)) (resolveCall scope settle ts)
      (resolveCall scope' settle' us) := by
  rcases splitFirst_alike Token.Alike.isCall_eq h with ⟨hnone, hnone'⟩ |
    ⟨before, t, after, before', u, after', hsome, hsome', hbefore, ht, hafter⟩
  · rw [resolveCall, resolveCall, hnone, hnone']
    exact .pure .none
  · rw [resolveCall, resolveCall, hsome, hsome']
    cases ht with
    | undefined | number _ | text _ | operator _ | name _ | group _ | conditional _ _ =>
      exact .pure .none
    | call hs harguments =>
      refine (performCall_alike hagrees hsettle hs harguments).bind fun _ _ _ ht => ?_
      exact .pure (.some (List.rel_append hbefore (.cons ht hafter)))

include hsettle in
theorem resolveGroup_alike {ts us : List Token} (h : AllAlike names calls ts us) :
    Reported.Alike names calls (Option.Rel (AllAlike names calls)) (resolveGroup settle ts)
      (resolveGroup settle' us) := by
  rcases splitFirst_alike Token.Alike.isGroup_eq h with ⟨hnone, hnone'⟩ |
    ⟨before, t, after, before', u, after', hsome, hsome', hbefore, ht, hafter⟩
  · rw [resolveGroup, resolveGroup, hnone, hnone']
    exact .pure .none
  · rw [resolveGroup, resolveGroup, hsome, hsome']
    cases ht with
    | undefined | number _ | text _ | operator _ | name _ | call _ _ | conditional _ _ =>
      exact .pure .none
    | group hinner =>
      refine (hsettle .parentheses hinner).bind fun reduced reduced' hreduced => ?_
      have hgone : Option.Rel (AllAlike names calls) (some (before ++ after))
          (some (before' ++ after')) := .some (List.rel_append hbefore hafter)
      have hkept {t u : Token} (ht : t.Alike names calls u) :
          Option.Rel (AllAlike names calls) (some (before ++ t :: after))
            (some (before' ++ u :: after')) := .some (List.rel_append hbefore (.cons ht hafter))
      have hlast := getLast?_alike hreduced
      generalize reduced.getLast? = last, reduced'.getLast? = last' at hlast
      cases hlast with
      | none => exact .report_bind (.refl _) (.pure hgone)
      | some ht =>
        cases ht with
        | undefined => exact .report_bind (.refl _) (.pure hgone)
        | number n => exact .pure (hkept (.number n))
        | text s => exact .pure (hkept (.text s))
        | operator op => exact .pure (hkept (.operator op))
        | name hs => exact .pure (hkept (.name hs))
        | call hs harguments => exact .pure (hkept (.call hs harguments))
        | group hinner => exact .pure (hkept (.group hinner))
        | conditional htrue hfalse => exact .pure (hkept (.conditional htrue hfalse))

include hsettle in
theorem resolveBranch_alike (branch : Branch) {ts us : List Token} (h : AllAlike names calls ts us) :
    Reported.Alike names calls (fun x y => AllAlike names calls x.1 y.1 ∧ x.2 = y.2)
      (resolveBranch settle branch ts) (resolveBranch settle' branch us) := by
  have hlength : ts.length = us.length := h.length_eq
  unfold resolveBranch
  rw [hlength]
  dsimp only
  split
  · refine (hsettle .branch h).bind fun reduced reduced' hreduced => ?_
    cases hreduced with
    | nil => exact .report_bind (.refl _) (.pure ⟨.cons .undefined .nil, rfl⟩)
    | cons ht hrest => exact .pure ⟨.cons ht hrest, rfl⟩
  · rw [pure_bind, pure_bind]
    cases h with
    | nil => exact .report_bind (.refl _) (.pure ⟨.cons .undefined .nil, rfl⟩)
    | cons ht hrest => exact .pure ⟨.cons ht hrest, rfl⟩

include hsettle in
theorem resolveConditional_alike {ts us : List Token} (h : AllAlike names calls ts us) :
    Reported.Alike names calls (Option.Rel (AllAlike names calls)) (resolveConditional settle ts)
      (resolveConditional settle' us) := by
  rcases splitFirst_alike Token.Alike.isConditional_eq h with ⟨hnone, hnone'⟩ |
    ⟨before, t, after, before', u, after', hsome, hsome', hbefore, ht, hafter⟩
  · rw [resolveConditional, resolveConditional, hnone, hnone']
    exact .pure .none
  · rw [resolveConditional, resolveConditional, hsome, hsome']
    cases ht with
    | undefined | number _ | text _ | operator _ | name _ | call _ _ | group _ => exact .pure .none
    | conditional htrue hfalse =>
      refine (resolveBranch_alike hsettle .whenTrue htrue).bind fun reduced reduced' hreduced => ?_
      obtain ⟨reduced, changed⟩ := reduced
      obtain ⟨reduced', changed'⟩ := reduced'
      obtain ⟨htrue, rfl⟩ := hreduced
      refine (resolveBranch_alike hsettle .whenFalse hfalse).bind fun reduced reduced' hreduced => ?_
      obtain ⟨reduced, changed'⟩ := reduced
      obtain ⟨reduced', changed''⟩ := reduced'
      obtain ⟨hfalse, rfl⟩ := hreduced
      dsimp only
      split
      · exact .pure (.some (List.rel_append hbefore (.cons (.conditional htrue hfalse) hafter)))
      · exact .pure .none

theorem isSome_alike {α β : Type} {R : α → β → Prop} {o : Option α} {o' : Option β}
    (h : Option.Rel R o o') : o.isSome = o'.isSome := by
  cases h <;> rfl

include hagrees hsettle in
theorem rewriteTokens_alike {ts us : List Token} (h : AllAlike names calls ts us) :
    Attempt.Alike names calls (Option.Rel (AllAlike names calls)) (rewriteTokens scope settle ts)
      (rewriteTokens scope' settle' us) := by
  unfold rewriteTokens
  rw [any_isName_alike h]
  refine (Attempt.Alike.lift (resolveNames_alike hagrees h)).bind fun _ _ _ hnamed => ?_
  refine (resolveCall_alike hagrees hsettle hnamed).bind fun _ _ _ hcall => ?_
  have hcalled := getD_alike hcall hnamed
  refine (Attempt.Alike.lift (resolveGroup_alike hsettle hcalled)).bind fun _ _ _ hgroup => ?_
  have hgrouped := getD_alike hgroup hcalled
  refine (Attempt.Alike.lift (resolveConditional_alike hsettle hgrouped)).bind
    fun _ _ _ hconditional => ?_
  have hchosen := getD_alike hconditional hgrouped
  dsimp only
  rw [isSome_alike hcall, isSome_alike hgroup, isSome_alike hconditional]
  split
  · exact .pure (.some hchosen)
  · exact .pure .none

include hagrees hsettle in
theorem stepWith_alike {ts us : List Token} (h : AllAlike names calls ts us) :
    Attempt.Alike names calls (Step.Alike names calls) (stepWith scope settle ts)
      (stepWith scope' settle' us) := by
  refine (rewriteTokens_alike hagrees hsettle h).bind fun outcome outcome' houtcome hrewritten => ?_
  cases hrewritten with
  | some htokens => exact .pure (.progressed htokens)
  | none =>
    obtain ⟨_, he, -⟩ | ⟨-, hsettled⟩ := rewriteTokens_cases houtcome
    · cases he
    · exact .lift (applyFirst_alike h hsettled.plain)

end Phases

/-! Whole runs. -/

section Runs

variable {names calls : String → String → Prop} {scope scope' : Scope} {limit levels : Nat}
  {ts us : List Token}

theorem drive_alike
    (hstep : ∀ {ts us}, AllAlike names calls ts us →
      Attempt.Alike names calls (Step.Alike names calls) (reduce scope limit levels ts)
        (reduce scope' limit levels us))
    (fuel : Nat) (h : AllAlike names calls ts us) :
    Attempt.Alike names calls (AllAlike names calls) (drive (reduce scope limit levels) fuel ts)
      (drive (reduce scope' limit levels) fuel us) := by
  induction fuel generalizing ts us with
  | zero => exact .pure h
  | succ fuel ih =>
    rw [drive, drive, needsReduction_alike h]
    split
    · rename_i hn
      refine (hstep h).bind fun step step' hresult hstep => ?_
      cases hstep with
      | stalled =>
        rw [← needsReduction_alike h] at hn
        exact absurd hresult (reduce_ne_stalled scope limit levels hn)
      | progressed hafter => exact ih hafter
    · exact .pure h

theorem contain_alike (place : Place) {outcome outcome' : Except Failure (List Token)}
    (h : OutcomeAlike (AllAlike names calls) outcome outcome') :
    Reported.Alike names calls (AllAlike names calls) (contain place outcome)
      (contain place outcome') := by
  cases h with
  | ok h => exact .pure h
  | error failure => exact .report_bind (.refl _) (.pure (.cons .undefined .nil))

/-- Runs of alike sequences are matched step by step, and so are those of the sequences in them. -/
theorem reduce_alike (hagrees : Scope.Agrees names calls scope scope') (limit levels : Nat)
    (h : AllAlike names calls ts us) :
    Attempt.Alike names calls (Step.Alike names calls) (reduce scope limit levels ts)
      (reduce scope' limit levels us) := by
  induction levels generalizing ts us with
  | zero => exact Reported.Alike.pure (.error (.nestingTooDeep limit))
  | succ levels ih =>
    refine stepWith_alike hagrees (fun place ts us hinner => ?_) h
    rw [settleWith_eq_drive, settleWith_eq_drive, sequenceWeight_alike hinner]
    exact Reported.Alike.bind (drive_alike ih _ hinner) fun _ _ => contain_alike place

end Runs

/-! Results. -/

section Results

variable {names calls : String → String → Prop} {ts us : List Token}

theorem splitTarget_alike (hfolded : ∀ {s s'}, names s s' → foldName s = foldName s')
    (h : AllAlike names calls ts us) :
    Option.Rel names (splitTarget ts).1 (splitTarget us).1 ∧
      AllAlike names calls (splitTarget ts).2 (splitTarget us).2 := by
  have hwhole := h
  cases h with
  | nil => exact ⟨.none, hwhole⟩
  | cons ht hrest =>
    cases ht with
    | undefined | number _ | text _ | operator _ | call _ _ | group _ | conditional _ _ =>
      exact ⟨.none, hwhole⟩
    | name hs =>
      cases hrest with
      | nil => exact ⟨.none, hwhole⟩
      | cons hnext hmore =>
        cases hnext with
        | undefined | number _ | text _ | name _ | call _ _ | group _ | conditional _ _ =>
          exact ⟨.none, hwhole⟩
        | operator op =>
          cases op with
          | set =>
            rw [splitTarget, splitTarget, isEmpty_of_foldName (hfolded hs)]
            split
            · exact ⟨.none, hwhole⟩
            · exact ⟨.some hs, hmore⟩
          | _ => exact ⟨.none, hwhole⟩

theorem resultOf_alike (assigning : Bool) (h : AllAlike names calls ts us) :
    Reported.Alike names calls (· = ·) (resultOf assigning ts) (resultOf assigning us) := by
  have hambiguous : Reported.Alike names calls (· = ·)
      (report (.ambiguousResult (describe ts)) >>= fun _ => pure (none : Option Token))
      (report (.ambiguousResult (describe us)) >>= fun _ => pure none) :=
    .report_bind (.ambiguousResult h) (.pure rfl)
  match h with
  | .nil =>
    cases assigning with
    | true => exact hambiguous
    | false => exact .pure rfl
  | .cons ht .nil =>
    cases ht with
    | undefined | number _ | text _ => exact .pure rfl
    | operator _ | name _ | call _ _ | group _ | conditional _ _ => exact hambiguous
  | .cons ht (.cons _ _) =>
    cases ht with
    | undefined | number _ | text _ | operator _ | name _ | call _ _ | group _
    | conditional _ _ => exact hambiguous

theorem conclude_alike (assigning : Bool) {outcome outcome' : Except Failure (List Token)}
    (h : OutcomeAlike (AllAlike names calls) outcome outcome') :
    Reported.Alike names calls (· = ·) (conclude assigning outcome) (conclude assigning outcome') := by
  cases h with
  | ok h => exact resultOf_alike assigning h
  | error failure => exact .report_bind (.refl _) (.pure rfl)

theorem assign_alike (store store' : Table Value) {target target' : Option String}
    (h : Option.Rel names target target') (result : Option Token) :
    Reported.Alike names calls (fun x y => x.1 = y.1) (assign store target result)
      (assign store' target' result) := by
  cases h with
  | none => exact .pure rfl
  | some hs =>
    unfold assign
    dsimp only
    cases ((result.map Token.toValue).getD .null).isNull with
    | true => exact .report_bind (.nothingToAssign hs) (.pure rfl)
    | false => exact .pure rfl

theorem evaluateTokens_alike {scope scope' : Scope} (hagrees : Scope.Agrees names calls scope scope')
    (limit : Nat) (h : AllAlike names calls ts us) :
    Reported.Alike names calls (fun x y => x.1 = y.1) (evaluateTokens limit scope ts)
      (evaluateTokens limit scope' us) := by
  obtain ⟨htarget, hbody⟩ := splitTarget_alike hagrees.folded h
  rw [evaluateTokens_eq, evaluateTokens_eq, driveRoot, sequenceWeight_alike hbody, isSome_alike htarget]
  refine Reported.Alike.bind (drive_alike (reduce_alike hagrees limit limit) _ hbody)
    fun _ _ houtcome => ?_
  refine (conclude_alike _ houtcome).bind fun result _ hresult => ?_
  subst hresult
  exact assign_alike scope.store scope'.store htarget result

end Results

/-! Spellings of one name. -/

/-- Two spellings of one name. -/
abbrev NamesAgree (s s' : String) : Prop := foldName s = foldName s'

theorem Cause.Alike.severity_eq {names calls : String → String → Prop} {cause cause' : Cause}
    (h : cause.Alike names calls cause') : cause.severity = cause'.severity := by
  cases h <;> rfl

theorem AllAlike.mono {names calls names' calls' : String → String → Prop}
    (hnames : ∀ {s s'}, names s s' → names' s s') (hcalls : ∀ {s s'}, calls s s' → calls' s s')
    {ts us : List Token} (h : AllAlike names calls ts us) : AllAlike names' calls' ts us :=
  allAlike_of_every (fun _ => hnames) (fun _ => hcalls) h (allEvery_tokenAt false ts)

theorem Cause.Alike.mono {names calls names' calls' : String → String → Prop}
    (hnames : ∀ {s s'}, names s s' → names' s s') (hcalls : ∀ {s s'}, calls s s' → calls' s s')
    {cause cause' : Cause} (h : cause.Alike names calls cause') :
    cause.Alike names' calls' cause' := by
  cases h with
  | refl => exact .refl cause
  | unknownVariable hint hint' hs => exact .unknownVariable hint hint' (hnames hs)
  | unknownFunction hint hint' hs => exact .unknownFunction hint hint' (hcalls hs)
  | nothingToAssign hs => exact .nothingToAssign (hnames hs)
  | ambiguousResult htokens => exact .ambiguousResult (AllAlike.mono hnames hcalls htokens)

/-- Evaluation gives the same token for other spellings of the same names, under all tables that agree
on the names of the tokens; diagnostics differ in their texts alone. -/
theorem evaluateTokens_mentioned {limit : Nat} {scope scope' : Scope} {tokens tokens' : List Token}
    (htokens : AllAlike NamesAgree NamesAgree tokens tokens')
    (hstore : ∀ inside s, TokenAt false tokens inside (.name s) →
      scope.store.get? s = scope'.store.get? s)
    (hfunctions : ∀ inside s arguments, TokenAt false tokens inside (.call s arguments) →
      scope.functions.get? s = scope'.functions.get? s) :
    let evaluated := evaluateTokens limit scope tokens
    let evaluated' := evaluateTokens limit scope' tokens'
    evaluated.result.1 = evaluated'.result.1 ∧
      evaluated.diagnostics.map Diagnostic.severity = evaluated'.diagnostics.map Diagnostic.severity ∧
      List.Forall₂ (Diagnostic.Alike NamesAgree NamesAgree) evaluated.diagnostics
        evaluated'.diagnostics := by
  intro evaluated evaluated'
  let names (s s' : String) : Prop := NamesAgree s s' ∧ scope.store.get? s = scope'.store.get? s'
  let calls (s s' : String) : Prop :=
    NamesAgree s s' ∧ scope.functions.get? s = scope'.functions.get? s'
  have hagrees : Scope.Agrees names calls scope scope' := ⟨And.left, And.right, And.left, And.right⟩
  have hmentioned : AllAlike names calls tokens tokens' := by
    refine allAlike_of_every ?_ ?_ htokens (allEvery_tokenAt false tokens)
    · exact fun hat hs => ⟨hs, (hstore _ _ hat).trans (scope'.store.get?_congr hs)⟩
    · exact fun hat hs => ⟨hs, (hfunctions _ _ _ hat).trans (scope'.functions.get?_congr hs)⟩
  have halike := evaluateTokens_alike hagrees limit hmentioned
  refine ⟨halike.result, ?_, ?_⟩
  · rw [← List.forall₂_eq_eq_eq, List.forall₂_map_left_iff, List.forall₂_map_right_iff]
    exact halike.diagnostics.imp fun _ _ h => h.cause.severity_eq
  · exact halike.diagnostics.imp fun _ _ h => ⟨h.cause.mono And.left And.left, h.span⟩

/-- An unknown name in two spellings, of which one table suggests another name. -/
theorem evaluateTokens_mentioned_spellings :
    let scope : Scope := ⟨.ofList [("half", fun _ => .ok (.text "x"))], .ofList [("price", .text "3")]⟩
    let scope' : Scope := ⟨scope.functions, scope.store.insert "nop" .null⟩
    let tokens : List Token := [.name "price", .operator .cat, .call "half" [.name "nope"]]
    let tokens' : List Token := [.name "PRICE", .operator .cat, .call "Half" [.name "Nope"]]
    (evaluateTokens 8 scope tokens).result.1 = (evaluateTokens 8 scope' tokens').result.1 ∧
      (evaluateTokens 8 scope tokens).diagnostics ≠ (evaluateTokens 8 scope' tokens').diagnostics := by
  intro scope scope' tokens tokens'
  have htokens : AllAlike NamesAgree NamesAgree tokens tokens' :=
    .cons (.name (by decide +kernel)) <| .cons (.operator .cat) <|
      .cons (.call (by decide +kernel) (.cons (.name (by decide +kernel)) .nil)) .nil
  have hstore : AllEvery (fun _ t => ∀ s, t = .name s → scope.store.get? s = scope'.store.get? s)
      false tokens := by
    simp only [tokens, AllEvery, Token.Every, Token.name.injEq, forall_eq', reduceCtorEq, false_imp_iff,
      implies_true, and_true, true_and]
    decide +kernel
  exact ⟨(evaluateTokens_mentioned htokens (fun _ s hat => hstore.of_tokenAt hat s rfl)
    fun _ _ _ _ => rfl).1, by decide +kernel⟩

end Reckon
