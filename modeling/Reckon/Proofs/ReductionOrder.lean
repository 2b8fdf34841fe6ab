import Reckon.Proofs.AlikeTokens
import Reckon.Proofs.AssignmentRuns
import Reckon.Proofs.ReductionLoops

/-!
The order in which tokens are replaced does not matter.

Before operators are applied, every name, call and group is replaced by what it comes to, and so are the
branches of the first conditional; how many of them one step replaces depends on what else is there.
What all tokens come to is the same after each replacement, and sequences whose tokens come to the same
have one value. A conditional that is not the first one may have its branches replaced early or late.
-/

namespace Reckon

section
variable {scope : Scope} {settle : Settle}

/-- The token with its branches as they are when they are chosen from. -/
def Token.ready (settle : Settle) : Token → Token
  | .conditional whenTrue whenFalse =>
    .conditional (resolveBranch settle .whenTrue whenTrue).result.1
      (resolveBranch settle .whenFalse whenFalse).result.1
  | t => t

/-- What stands in the place of a token when operators are applied. -/
def Token.comesTo (scope : Scope) (settle : Settle) : Token → Except Failure (List Token)
  | .name s => .ok [(lookup scope.store s).result]
  | .call s arguments => (performCall scope settle s arguments).run.result.map ([·])
  | .group inner =>
    .ok ((lastValue (settle .parentheses inner).result).toList.map (Token.ready settle))
  | t => .ok [t.ready settle]

/-- What stands in the places of tokens when operators are applied. -/
def comesTo (scope : Scope) (settle : Settle) : List Token → Except Failure (List Token)
  | [] => .ok []
  | t :: rest => do
    let first ← t.comesTo scope settle
    let more ← comesTo scope settle rest
    return first ++ more

theorem Token.ready_of_not_conditional {t : Token} (h : isConditional t = false) :
    t.ready settle = t := by
  cases t with
  | conditional _ _ => contradiction
  | undefined | number _ | text _ | operator _ | name _ | call _ _ | group _ => rfl

theorem Token.ready_of_isValue {t : Token} (h : t.isValue) : t.ready settle = t := by
  refine ready_of_not_conditional ?_
  obtain rfl | ⟨_, rfl⟩ | ⟨_, rfl⟩ := value_cases h <;> rfl

theorem Token.comesTo_of_isPlain {t : Token} (h : t.isPlain) :
    t.comesTo scope settle = .ok [t.ready settle] := by
  cases t with
  | name _ | call _ _ | group _ => simp [isPlain] at h
  | undefined | number _ | text _ | operator _ | conditional _ _ => rfl

theorem Token.comesTo_of_isValue {t : Token} (h : t.isValue) : t.comesTo scope settle = .ok [t] := by
  obtain rfl | ⟨_, rfl⟩ | ⟨_, rfl⟩ := value_cases h <;> rfl

theorem comesTo_cons_eq_ok {t : Token} {rest done : List Token} :
    comesTo scope settle (t :: rest) = .ok done ↔ ∃ us more, t.comesTo scope settle = .ok us ∧
      comesTo scope settle rest = .ok more ∧ us ++ more = done := by
  rw [comesTo]
  cases t.comesTo scope settle <;> cases comesTo scope settle rest <;>
    simp [bind, Except.bind, pure, Except.pure]

theorem comesTo_cons {t u : Token} {rest done : List Token} (ht : t.comesTo scope settle = .ok [u])
    (hrest : comesTo scope settle rest = .ok done) :
    comesTo scope settle (t :: rest) = .ok (u :: done) :=
  comesTo_cons_eq_ok.mpr ⟨_, _, ht, hrest, rfl⟩

theorem comesTo_append (ts us : List Token) :
    comesTo scope settle (ts ++ us) = do
      let first ← comesTo scope settle ts
      let more ← comesTo scope settle us
      return first ++ more := by
  induction ts with
  | nil =>
    rw [List.nil_append]
    cases comesTo scope settle us <;> rfl
  | cons t rest ih =>
    simp only [List.cons_append, comesTo, ih, bind_assoc, pure_bind, List.append_assoc]

theorem comesTo_singleton (t : Token) : comesTo scope settle [t] = t.comesTo scope settle := by
  rw [comesTo]
  cases t.comesTo scope settle with
  | ok us => simp [comesTo, bind, Except.bind, pure, Except.pure]
  | error failure => rfl

/-- What a part comes to can be exchanged for another part that comes to the same. -/
theorem comesTo_congr {us vs : List Token} (h : comesTo scope settle us = comesTo scope settle vs)
    (before after : List Token) :
    comesTo scope settle (before ++ us ++ after) = comesTo scope settle (before ++ vs ++ after) := by
  simp only [comesTo_append, h]

theorem comesTo_of_plain {tokens : List Token} (h : ∀ t ∈ tokens, t.isPlain) :
    comesTo scope settle tokens = .ok (tokens.map (Token.ready settle)) := by
  induction tokens with
  | nil => rfl
  | cons t rest ih =>
    rw [comesTo, Token.comesTo_of_isPlain (h t (by simp)), ih fun u hu => h u (by simp [hu])]
    rfl

theorem not_ok_of_call {before after arguments : List Token} {s : String} {failure : Failure}
    (h : (performCall scope settle s arguments).run.result = .error failure) (us : List Token) :
    comesTo scope settle (before ++ .call s arguments :: after) ≠ .ok us := by
  rw [comesTo_append, comesTo, Token.comesTo, h]
  cases comesTo scope settle before with
  | ok _ => exact nofun
  | error _ => exact nofun

end

/-! Replacements keep what tokens come to. -/

section
variable {scope : Scope} {settle : Settle}
  (hdone : ∀ place inner, needsReduction (settle place inner).result = false)
include hdone

theorem length_settled (place : Place) (inner : List Token) :
    (settle place inner).result.length ≤ 1 := by
  by_contra h
  have hneeds := needsReduction_of_long (show 1 < (settle place inner).result.length by omega)
  rw [hdone] at hneeds
  contradiction

theorem isPlain_of_settled {place : Place} {inner : List Token} {t : Token}
    (h : (settle place inner).result.getLast? = some t) : t.isPlain := by
  have hlength := length_settled hdone place inner
  have hneeds := hdone place inner
  match hr : (settle place inner).result with
  | [] => simp [hr] at h
  | [u] =>
    rw [hr] at h hneeds
    obtain rfl : u = t := by simpa using h
    cases u with
    | name _ | call _ _ | group _ => exact Bool.noConfusion hneeds
    | undefined | number _ | text _ | operator _ | conditional _ _ => rfl
  | _ :: _ :: _ => simp [hr] at hlength

theorem length_resolveBranch (branch : Branch) (tokens : List Token) :
    (resolveBranch settle branch tokens).result.1.length = 1 := by
  match tokens with
  | [] => rfl
  | [t] => rw [resolveBranch_of_single rfl]; rfl
  | t :: u :: rest =>
    rw [result_resolveBranch_of_long (by simp)]
    dsimp only
    split
    · rfl
    · rename_i hne
      have := length_settled hdone .branch (t :: u :: rest)
      have := List.length_pos_iff.mpr hne
      omega

theorem ready_ready (t : Token) : (t.ready settle).ready settle = t.ready settle := by
  cases t with
  | conditional whenTrue whenFalse =>
    simp only [Token.ready, resolveBranch_of_single (length_resolveBranch hdone _ _),
      Reported.result_pure]
  | undefined | number _ | text _ | operator _ | name _ | call _ _ | group _ => rfl

theorem map_ready_ready (tokens : List Token) :
    (tokens.map (Token.ready settle)).map (Token.ready settle) = tokens.map (Token.ready settle) := by
  rw [List.map_map]
  exact List.map_congr_left fun t _ => ready_ready hdone t

theorem comesTo_ready (t : Token) : (t.ready settle).comesTo scope settle = t.comesTo scope settle := by
  cases t with
  | conditional whenTrue whenFalse =>
    have hready := ready_ready hdone (.conditional whenTrue whenFalse)
    exact congrArg (fun u => Except.ok [u]) hready
  | undefined | number _ | text _ | operator _ | name _ | call _ _ | group _ => rfl

theorem comesTo_map_ready (tokens : List Token) :
    comesTo scope settle (tokens.map (Token.ready settle)) = comesTo scope settle tokens := by
  induction tokens with
  | nil => rfl
  | cons t rest ih => rw [List.map_cons, comesTo, comesTo, comesTo_ready hdone, ih]

/-- A token comes to nothing, or to one token which stays as it is until an operator is applied. -/
theorem Token.comesTo_cases {t : Token} {us : List Token} (h : t.comesTo scope settle = .ok us) :
    us = [] ∨ ∃ u, us = [u] ∧ u.isPlain ∧ u.ready settle = u := by
  have hvalue {u : Token} (hu : u.isValue) : u.isPlain ∧ u.ready settle = u :=
    ⟨Token.isPlain_of_isValue hu, Token.ready_of_isValue hu⟩
  have hready {u : Token} (hu : u.isPlain) :
      (u.ready settle).isPlain ∧ (u.ready settle).ready settle = u.ready settle :=
    ⟨by cases u <;> first | rfl | exact hu, ready_ready hdone u⟩
  cases t with
  | name s =>
    obtain rfl := Except.ok.inj h
    exact .inr ⟨_, rfl, hvalue (Token.isValue_of_weight (weight_lookup scope.store s))⟩
  | call s arguments =>
    rw [Token.comesTo] at h
    cases hcall : (performCall scope settle s arguments).run.result with
    | error failure =>
      rw [hcall] at h
      cases h
    | ok u =>
      rw [hcall] at h
      obtain rfl := Except.ok.inj h
      exact .inr ⟨u, rfl, hvalue (Token.isValue_of_weight (weight_performCall hcall))⟩
  | group inner =>
    obtain rfl := Except.ok.inj h
    cases hlast : lastValue (settle .parentheses inner).result with
    | none => exact .inl rfl
    | some u =>
      have hu := isPlain_of_settled hdone (Option.eq_some_of_filter_eq_some hlast)
      exact .inr ⟨_, rfl, hready hu⟩
  | undefined | number _ | text _ | operator _ | conditional _ _ =>
    obtain rfl := Except.ok.inj h
    exact .inr ⟨_, rfl, hready rfl⟩

/-- Tokens that all have been replaced come to themselves. -/
theorem comesTo_done {tokens done : List Token} (h : comesTo scope settle tokens = .ok done) :
    comesTo scope settle done = .ok done := by
  induction tokens generalizing done with
  | nil =>
    obtain rfl := Except.ok.inj h
    rfl
  | cons t rest ih =>
    obtain ⟨us, more, hus, hmore, rfl⟩ := comesTo_cons_eq_ok.mp h
    rcases Token.comesTo_cases hdone hus with rfl | ⟨u, rfl, hplain, hready⟩
    · exact ih hmore
    · refine comesTo_cons ?_ (ih hmore)
      rw [Token.comesTo_of_isPlain hplain, hready]

theorem comesTo_of_rewrites {tokens after : List Token} (h : Rewrites scope settle tokens after) :
    comesTo scope settle tokens = comesTo scope settle after := by
  -- One token is replaced, and what replaces it comes to the same.
  have hreplaced (before rest : List Token) {t : Token} {us : List Token}
      (ht : t.comesTo scope settle = comesTo scope settle us) :
      comesTo scope settle (before ++ t :: rest) = comesTo scope settle (before ++ us ++ rest) := by
    have := comesTo_congr ((comesTo_singleton t).trans ht) before rest
    rwa [List.append_assoc, List.singleton_append] at this
  have hvalue {before rest : List Token} {t u : Token}
      (ht : t.comesTo scope settle = u.comesTo scope settle) :
      comesTo scope settle (before ++ t :: rest) = comesTo scope settle (before ++ u :: rest) := by
    rw [hreplaced before rest (ht.trans (comesTo_singleton u).symm), List.append_assoc]
    rfl
  cases h with
  | name before s after =>
    exact hvalue (Token.comesTo_of_isValue (Token.isValue_of_weight (weight_lookup scope.store s))).symm
  | @call before s arguments after t h =>
    refine hvalue ?_
    rw [Token.comesTo, h, Token.comesTo_of_isValue (Token.isValue_of_weight (weight_performCall h))]
    rfl
  | group before h ht =>
    refine hvalue ?_
    rw [Token.comesTo, lastValue_eq_some h ht,
      Token.comesTo_of_isPlain (isPlain_of_settled hdone h)]
    rfl
  | @groupGone before inner _ h =>
    have hgone : Token.comesTo scope settle (.group inner) = comesTo scope settle [] := by
      rw [Token.comesTo, lastValue_eq_none.mpr h]
      rfl
    rw [hreplaced before _ hgone, List.append_nil]
  | @conditional before whenTrue whenFalse after h =>
    exact hvalue (comesTo_ready hdone (.conditional whenTrue whenFalse)).symm

theorem comesTo_of_rewritesTo {tokens after : List Token} (h : RewritesTo scope settle tokens after) :
    comesTo scope settle tokens = comesTo scope settle after := by
  induction h with
  | refl => rfl
  | tail _ h ih => exact ih.trans (comesTo_of_rewrites hdone h)

end

/-! Operators are applied alike, whether the branches of later conditionals are replaced or not. -/

section
variable (settle : Settle)

theorem isOperator_ready (op : Operator) (t : Token) :
    (t.ready settle).isOperator op = t.isOperator op := by
  cases t <;> rfl

theorem isScalar_ready (t : Token) : (t.ready settle).isScalar = t.isScalar := by
  cases t <;> rfl

theorem foldSign_sub_ready (rest : List Token) :
    foldSign ((Token.operator .sub :: rest).map (Token.ready settle)) =
      (foldSign (.operator .sub :: rest)).map (List.map (Token.ready settle)) := by
  have hop : Token.isOperator .sub ∘ Token.ready settle = Token.isOperator .sub :=
    funext (isOperator_ready settle .sub)
  have htake : (((Token.operator .sub :: rest).map (Token.ready settle)).takeWhile
      (Token.isOperator .sub)).length =
        ((Token.operator .sub :: rest).takeWhile (Token.isOperator .sub)).length := by
    rw [List.takeWhile_map, hop, List.length_map]
  have hdrop : ((Token.operator .sub :: rest).map (Token.ready settle)).dropWhile
      (Token.isOperator .sub) =
        ((Token.operator .sub :: rest).dropWhile (Token.isOperator .sub)).map (Token.ready settle) := by
    rw [List.dropWhile_map, hop]
  rw [List.map_cons] at htake hdrop ⊢
  have hsub : (Token.operator .sub).ready settle = .operator .sub := rfl
  rw [hsub] at htake hdrop ⊢
  simp only [foldSign]
  rw [htake, hdrop]
  cases (Token.operator .sub :: rest).dropWhile (Token.isOperator .sub) with
  | nil => rfl
  | cons operand rest =>
    simp only [List.map_cons, isScalar_ready]
    split
    · rename_i hs
      rw [Token.ready_of_isValue (Token.isValue_of_isScalar hs)]
      split
      · rfl
      · simp [Token.ready_of_isValue (Token.isValue_of_isScalar hs)]
    · rfl

theorem foldSign_not_ready {op : Operator} (hop : op.isLogicalNot) (rest : List Token) :
    foldSign ((Token.operator op :: rest).map (Token.ready settle)) =
      (foldSign (.operator op :: rest)).map (List.map (Token.ready settle)) := by
  have hvalue (operand : Token) :
      (logicalNot op operand).ready settle = logicalNot op operand :=
    Token.ready_of_isValue (Token.isValue_of_isScalar (isScalar_logicalNot op operand))
  have hself (o : Operator) : (Token.operator o).ready settle = .operator o := rfl
  cases rest with
  | nil =>
    cases op with
    | not | notNot => rfl
    | _ => exact Bool.noConfusion hop
  | cons next more =>
    rw [List.map_cons, List.map_cons, hself, foldSign_not hop, foldSign_not hop, isScalar_ready]
    cases next with
    | number _ | text _ =>
      exact congrArg (fun signed => some (signed :: more.map (Token.ready settle))) (hvalue _).symm
    | undefined | name _ | call _ _ | group _ | conditional _ _ => rfl
    | operator found =>
      cases found with
      | sub =>
        cases more with
        | nil => rfl
        | cons operand more =>
          rw [if_neg (by simp [Token.isScalar]), if_neg (by simp [Token.isScalar]), hself]
          simp only [List.map_cons, isScalar_ready]
          split
          · rename_i hs
            rw [Token.ready_of_isValue (Token.isValue_of_isScalar hs), Option.map_some, List.map_cons,
              hvalue]
          · rfl
      | _ => rfl

theorem foldSign_ready (tokens : List Token) :
    foldSign (tokens.map (Token.ready settle)) =
      (foldSign tokens).map (List.map (Token.ready settle)) := by
  cases tokens with
  | nil => rfl
  | cons t rest =>
    cases t with
    | undefined | number _ | text _ | name _ | call _ _ | group _ | conditional _ _ => rfl
    | operator op =>
      cases op with
      | sub => exact foldSign_sub_ready settle rest
      | not | notNot => exact foldSign_not_ready settle rfl rest
      | _ => cases rest <;> rfl

theorem ready_single {whenTrue whenFalse : List Token} (htrue : whenTrue.length = 1)
    (hfalse : whenFalse.length = 1) :
    (Token.conditional whenTrue whenFalse).ready settle = .conditional whenTrue whenFalse := by
  simp only [Token.ready, resolveBranch_of_single htrue, resolveBranch_of_single hfalse,
    Reported.result_pure]

section
variable {lhs : Token} (hlhs : lhs.ready settle = lhs)
include hlhs

theorem applyToOperands_ready (op : Operator) (operands : List Token) :
    (applyToOperands lhs op (operands.map (Token.ready settle))).result =
      (applyToOperands lhs op operands).result.map (Token.ready settle) := by
  cases operands with
  | nil => exact congrArg (· :: []) hlhs.symm
  | cons rhs more =>
    have hvalue : (applyBinary op lhs rhs).result.ready settle = (applyBinary op lhs rhs).result :=
      Token.ready_of_isValue (isValue_applyBinary op lhs rhs)
    cases rhs with
    | operator found =>
      exact congrArg (· :: .operator found :: more.map (Token.ready settle)) hlhs.symm
    | undefined | number _ | text _ | name _ | call _ _ | group _ | conditional _ _ =>
      exact congrArg (· :: more.map (Token.ready settle)) hvalue.symm

theorem applyOperator_ready (op : Operator) (rest : List Token) :
    (applyOperator lhs op (rest.map (Token.ready settle))).result =
      (applyOperator lhs op rest).result.map (Token.ready settle) := by
  have hsigns : foldSign (.operator op :: rest.map (Token.ready settle)) =
      (foldSign (.operator op :: rest)).map (List.map (Token.ready settle)) :=
    foldSign_ready settle (.operator op :: rest)
  have hrest : (foldSign (rest.map (Token.ready settle))).getD (rest.map (Token.ready settle)) =
      ((foldSign rest).getD rest).map (Token.ready settle) := by
    rw [foldSign_ready]
    cases foldSign rest <;> rfl
  cases rest with
  | nil => exact congrArg (· :: []) hlhs.symm
  | cons t more =>
    have hkept : lhs :: (t :: more).map (Token.ready settle) =
        (lhs :: t :: more).map (Token.ready settle) := congrArg (· :: _) hlhs.symm
    have hbinary := applyToOperands_ready settle hlhs op ((foldSign (t :: more)).getD (t :: more))
    rw [← hrest] at hbinary
    cases op with
    | not | notNot =>
      rw [List.map_cons] at hsigns ⊢
      simp only [applyOperator, hsigns]
      cases foldSign (.operator _ :: t :: more) with
      | none => exact hkept
      | some folded => exact congrArg (· :: folded.map (Token.ready settle)) hlhs.symm
    | set | comma => exact hkept
    | _ => exact hbinary

end

/-- The tokens that a step leaves, each mapped. -/
def Step.map (f : Token → Token) : Step → Step
  | .progressed tokens => .progressed (tokens.map f)
  | .stalled => .stalled

end

section
variable {scope : Scope} {settle : Settle}
  (hdone : ∀ place inner, needsReduction (settle place inner).result = false)
include hdone

theorem applyFirst_sign_ready (op : Operator) (rest : List Token) :
    (applyFirst (.operator op :: rest.map (Token.ready settle))).result.map (Token.ready settle) =
      (applyFirst (.operator op :: rest)).result.map (Token.ready settle) := by
  have hsigns : foldSign (.operator op :: rest.map (Token.ready settle)) =
      (foldSign (.operator op :: rest)).map (List.map (Token.ready settle)) :=
    foldSign_ready settle (.operator op :: rest)
  have hfold : (if op.isSign then foldSign (.operator op :: rest.map (Token.ready settle)) else none) =
      (if op.isSign then foldSign (.operator op :: rest) else none).map
        (List.map (Token.ready settle)) := by
    split
    · exact hsigns
    · rfl
  have hempty : (rest.map (Token.ready settle)).isEmpty = rest.isEmpty := by cases rest <;> rfl
  unfold applyFirst
  dsimp only
  rw [hempty, hfold]
  split
  · rfl
  · cases (if op.isSign then foldSign (.operator op :: rest) else none) with
    | none => exact congrArg Step.progressed (map_ready_ready hdone rest)
    | some folded => exact congrArg Step.progressed (map_ready_ready hdone folded)

theorem applyFirst_value_ready {t : Token} (ht : t.isValue) (next : Token) (more : List Token)
    (hplain : next.isPlain) (hsingle : ∀ whenTrue whenFalse, next = .conditional whenTrue whenFalse →
      whenTrue.length = 1 ∧ whenFalse.length = 1) :
    (applyFirst (t :: (next :: more).map (Token.ready settle))).result.map (Token.ready settle) =
      (applyFirst (t :: next :: more)).result.map (Token.ready settle) := by
  rw [List.map_cons]
  rcases plain_cases hplain with hnext | ⟨op, rfl⟩ | ⟨whenTrue, whenFalse, rfl⟩
  · rw [Token.ready_of_isValue hnext, applyFirst_value ht hnext, applyFirst_value ht hnext]
    exact congrArg (fun us => Step.progressed (_ :: us)) (map_ready_ready hdone more)
  · have hready := applyOperator_ready settle (Token.ready_of_isValue ht) op more
    rw [Token.ready_of_not_conditional rfl, applyFirst_operator ht, applyFirst_operator ht, hready]
    exact congrArg Step.progressed (map_ready_ready hdone _)
  · obtain ⟨htrue, hfalse⟩ := hsingle whenTrue whenFalse rfl
    rw [ready_single settle htrue hfalse, applyFirst_conditional ht, applyFirst_conditional ht]
    exact congrArg (fun us => Step.progressed (_ :: us)) (map_ready_ready hdone more)

/-- A step is the same but for branches that are not chosen from in it. -/
theorem applyFirst_ready {tokens : List Token} (h : Settled tokens) :
    (applyFirst (tokens.map (Token.ready settle))).result.map (Token.ready settle) =
      (applyFirst tokens).result.map (Token.ready settle) := by
  cases tokens with
  | nil => rfl
  | cons t rest =>
    rcases plain_cases (h.plain t List.mem_cons_self) with ht | ⟨op, rfl⟩ | ⟨_, _, rfl⟩
    · rw [List.map_cons, Token.ready_of_isValue ht]
      cases rest with
      | nil => rfl
      | cons next more =>
        refine applyFirst_value_ready hdone ht next more (h.plain next (by simp)) ?_
        rintro whenTrue whenFalse rfl
        exact h.single_branches ht
    · exact applyFirst_sign_ready hdone op rest
    · exact congrArg Step.progressed (map_ready_ready hdone rest)

end

/-! The loop at the root. -/

/-- The value that a sequence is reduced to at the root. -/
def rootValue (limit : Nat) (scope : Scope) (tokens : List Token) : Token :=
  answer (driveRoot limit scope tokens).result

section
variable {limit : Nat} {scope : Scope} {tokens after : List Token}

theorem rootValue_of_not_needsReduction (hn : needsReduction tokens = false) :
    rootValue limit scope tokens = answer (.ok tokens) := by
  unfold rootValue driveRoot
  cases sequenceWeight tokens <;> simp [drive, hn]

theorem rootValue_of_step (hn : needsReduction tokens)
    (h : (reduce scope limit limit tokens).run.result = .ok (.progressed after)) :
    rootValue limit scope tokens = rootValue limit scope after := by
  have hweight := weight_lt_of_reduce h
  obtain ⟨fuel, hfuel⟩ := Nat.exists_eq_add_one.mpr (show 0 < sequenceWeight tokens by omega)
  unfold rootValue driveRoot
  rw [drive_congr (fun _ _ => weight_lt_of_reduce) (Nat.le_refl (sequenceWeight after))
    (show sequenceWeight after ≤ fuel by omega), hfuel]
  simp only [drive, hn, if_true, ExceptT.run_bind, Reported.result_bind, h]

theorem rootValue_of_error {failure : Failure} (hn : needsReduction tokens)
    (h : (reduce scope limit limit tokens).run.result = .error failure) :
    rootValue limit scope tokens = .undefined := by
  unfold rootValue driveRoot
  rw [drive_error_of_stepsTo .refl hn h (Nat.le_refl _)]
  rfl

end

section
variable {levels : Nat} {scope : Scope}

/-- How the sequences inside one at the root are settled. -/
abbrev rootSettle (levels : Nat) (scope : Scope) : Settle := settleAt scope (levels + 1) levels

theorem rootSettle_done (place : Place) (inner : List Token) :
    needsReduction (rootSettle levels scope place inner).result = false :=
  needsReduction_settleWith (fun _ _ => weight_lt_of_reduce) place (Nat.le_refl _)

theorem isPlain_of_not_needsReduction {tokens : List Token} (h : needsReduction tokens = false) :
    ∀ t ∈ tokens, t.isPlain := by
  match tokens with
  | [] => simp
  | [t] =>
    intro u hu
    obtain rfl := List.mem_singleton.mp hu
    cases u with
    | name _ | call _ _ | group _ => exact Bool.noConfusion h
    | undefined | number _ | text _ | operator _ | conditional _ _ => rfl
  | _ :: _ :: _ => simp [needsReduction] at h

/-- At the root a call fails, or some tokens are replaced, or all tokens are what they come to and an
operator is applied unless there is nothing left to reduce. -/
theorem rootValue_cases (scope : Scope) (levels : Nat) (tokens : List Token) :
    (rootValue (levels + 1) scope tokens = .undefined ∧
      ∀ done, comesTo scope (rootSettle levels scope) tokens ≠ .ok done) ∨
    (∃ after, sequenceWeight after < sequenceWeight tokens ∧
      rootValue (levels + 1) scope tokens = rootValue (levels + 1) scope after ∧
      comesTo scope (rootSettle levels scope) tokens =
        comesTo scope (rootSettle levels scope) after) ∨
    ((∀ t ∈ tokens, t.isPlain) ∧ (needsReduction tokens → Settled tokens ∧
      ∃ after, (applyFirst tokens).result = .progressed after ∧
        sequenceWeight after < sequenceWeight tokens ∧
        rootValue (levels + 1) scope tokens = rootValue (levels + 1) scope after)) := by
  cases hn : needsReduction tokens with
  | false => exact .inr (.inr ⟨isPlain_of_not_needsReduction hn, nofun⟩)
  | true =>
    cases hstep : (reduce scope (levels + 1) (levels + 1) tokens).run.result with
    | error failure =>
      obtain ⟨before, s, arguments, after, hrewrites, hcall⟩ := performCall_of_stepWith hstep
      refine .inl ⟨rootValue_of_error hn hstep, fun done => ?_⟩
      rw [comesTo_of_rewritesTo rootSettle_done hrewrites]
      exact not_ok_of_call hcall done
    | ok step =>
      right
      cases step with
      | stalled => exact absurd hstep (reduce_ne_stalled scope _ _ hn)
      | progressed after =>
        have hweight := weight_lt_of_reduce hstep
        have hvalue := rootValue_of_step hn hstep
        rcases stepWith_cases hstep with ⟨after', heq, hrewrites⟩ | ⟨hsettled, happly⟩
        · obtain rfl := Step.progressed.inj heq
          exact .inl ⟨after, hweight, hvalue,
            comesTo_of_rewritesTo rootSettle_done hrewrites.to_reflTransGen⟩
        · exact .inr ⟨hsettled.plain, fun _ => ⟨hsettled, after, happly.symm, hweight, hvalue⟩⟩

theorem rootValue_of_failure {tokens : List Token} {failure : Failure}
    (h : comesTo scope (rootSettle levels scope) tokens = .error failure) :
    rootValue (levels + 1) scope tokens = .undefined := by
  induction hw : sequenceWeight tokens using Nat.strongRecOn generalizing tokens with
  | _ n ih =>
    rcases rootValue_cases scope levels tokens with
      ⟨hvalue, -⟩ | ⟨after, hweight, hvalue, hsame⟩ | hready
    · exact hvalue
    · exact hvalue.trans (ih _ (hw ▸ hweight) (hsame ▸ h) rfl)
    · rw [comesTo_of_plain hready.1] at h
      cases h

theorem needsReduction_ready (settle : Settle) (tokens : List Token) :
    needsReduction (tokens.map (Token.ready settle)) = needsReduction tokens := by
  match tokens with
  | [] => rfl
  | [t] => cases t <;> rfl
  | _ :: _ :: _ => rw [needsReduction_of_long (by simp), needsReduction_of_long (by simp)]

theorem answer_ready (settle : Settle) (tokens : List Token) :
    answer (.ok (tokens.map (Token.ready settle))) = answer (.ok tokens) := by
  match tokens with
  | [] | _ :: _ :: _ => rfl
  | [t] => cases t <;> rfl

/-- Sequences whose tokens come to the same have one value at the root, in whatever order their tokens
are replaced. -/
theorem rootValue_congr {ts us : List Token}
    (h : comesTo scope (rootSettle levels scope) ts = comesTo scope (rootSettle levels scope) us) :
    rootValue (levels + 1) scope ts = rootValue (levels + 1) scope us := by
  induction hw : sequenceWeight ts + sequenceWeight us using Nat.strongRecOn generalizing ts us with
  | _ n ih =>
  subst hw
  cases hdone : comesTo scope (rootSettle levels scope) ts with
  | error failure => rw [rootValue_of_failure hdone, rootValue_of_failure (h ▸ hdone)]
  | ok done =>
    rcases rootValue_cases scope levels ts with
      ⟨-, hno⟩ | ⟨ts', hweight, hvalue, hsame⟩ | ⟨hts, hstepTs⟩
    · exact absurd hdone (hno done)
    · exact hvalue.trans (ih _ (by omega) (hsame.symm.trans h) rfl)
    rcases rootValue_cases scope levels us with
      ⟨-, hno⟩ | ⟨us', hweight, hvalue, hsame⟩ | ⟨hus, hstepUs⟩
    · exact absurd (h ▸ hdone) (hno done)
    · exact (ih _ (by omega) (h.trans hsame) rfl).trans hvalue.symm
    -- Nothing is left to replace in either of the two.
    have hready : ts.map (Token.ready (rootSettle levels scope)) =
        us.map (Token.ready (rootSettle levels scope)) := by
      rw [comesTo_of_plain hts, comesTo_of_plain hus] at h
      exact Except.ok.inj h
    have hneeds : needsReduction ts = needsReduction us := by
      rw [← needsReduction_ready, hready, needsReduction_ready]
    cases hn : needsReduction ts with
    | false =>
      rw [rootValue_of_not_needsReduction hn, rootValue_of_not_needsReduction (hneeds ▸ hn),
        ← answer_ready, hready, answer_ready]
    | true =>
      obtain ⟨hsettledTs, ts', hafterTs, hweightTs, hvalueTs⟩ := hstepTs hn
      obtain ⟨hsettledUs, us', hafterUs, hweightUs, hvalueUs⟩ := hstepUs (hneeds ▸ hn)
      have hafter := applyFirst_ready (@rootSettle_done levels scope) hsettledTs
      rw [hready, applyFirst_ready rootSettle_done hsettledUs, hafterTs, hafterUs] at hafter
      have hmap := Step.progressed.inj hafter
      have hsame : comesTo scope (rootSettle levels scope) ts' =
          comesTo scope (rootSettle levels scope) us' := by
        rw [← comesTo_map_ready rootSettle_done, ← hmap, comesTo_map_ready rootSettle_done]
      rw [hvalueTs, hvalueUs]
      exact ih _ (by omega) hsame rfl

theorem rootValue_of_comesTo {tokens done : List Token}
    (h : comesTo scope (rootSettle levels scope) tokens = .ok done) :
    rootValue (levels + 1) scope tokens = rootValue (levels + 1) scope done :=
  rootValue_congr (h.trans (comesTo_done rootSettle_done h).symm)

/-- After all tokens have been replaced, the first operand is combined with what follows it. -/
theorem rootValue_of_applyFirst {tokens done after : List Token}
    (h : comesTo scope (rootSettle levels scope) tokens = .ok done) (hn : needsReduction done)
    (happly : (applyFirst done).result = .progressed after) :
    rootValue (levels + 1) scope tokens = rootValue (levels + 1) scope after := by
  induction hw : sequenceWeight tokens using Nat.strongRecOn generalizing tokens with
  | _ n ih =>
    rcases rootValue_cases scope levels tokens with
      ⟨-, hno⟩ | ⟨tokens', hweight, hvalue, hsame⟩ | ⟨hplain, hstep⟩
    · exact absurd h (hno done)
    · exact hvalue.trans (ih _ (hw ▸ hweight) (hsame ▸ h) rfl)
    · rw [comesTo_of_plain hplain] at h
      obtain rfl := Except.ok.inj h
      rw [needsReduction_ready] at hn
      obtain ⟨hsettled, after', hafter, -, hvalue⟩ := hstep hn
      have hready := applyFirst_ready (@rootSettle_done levels scope) hsettled
      rw [happly, hafter] at hready
      rw [hvalue]
      refine rootValue_congr ?_
      rw [← comesTo_map_ready rootSettle_done, ← Step.progressed.inj hready,
        comesTo_map_ready rootSettle_done]

end

end Reckon
