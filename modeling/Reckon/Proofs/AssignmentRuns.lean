import Reckon.Proofs.EvaluationOutcome

/-!
What evaluations write to the variables, one by one and over whole runs.

Only an assignment at the start of a sequence writes, and it writes the value of the token that is
returned. A run is any number of evaluations on one table, each with a limit, functions and tokens of
its own and with whatever outcome.
-/

namespace Reckon

/-- The token that the outcome of the loop at the root comes to: the scalar that is left, else null. -/
def answer : Except Failure (List Token) → Token
  | .ok [t] => if t.isScalar then t else .undefined
  | _ => .undefined

theorem result_conclude (assigning : Bool) (outcome : Except Failure (List Token)) :
    (conclude assigning outcome).result.getD .undefined = answer outcome ∧
      ((conclude assigning outcome).result.map Token.toValue).getD .null =
        (answer outcome).toValue := by
  match outcome with
  | .error failure => exact ⟨rfl, rfl⟩
  | .ok [] => cases assigning <;> exact ⟨rfl, rfl⟩
  | .ok [t] | .ok (t :: _ :: _) =>
    cases t with
    | undefined | number _ | text _ | operator _ | name _ | call _ _ | group _
    | conditional _ _ => exact ⟨rfl, rfl⟩

/-- What an evaluation returns and leaves: the answer of its loop, written to its target. -/
theorem result_evaluateTokens (limit : Nat) (scope : Scope) (tokens : List Token) :
    (evaluateTokens limit scope tokens).result =
      (answer (driveRoot limit scope (splitTarget tokens).2).result,
        match (splitTarget tokens).1 with
        | none => scope.store
        | some s => scope.store.insert s
            (answer (driveRoot limit scope (splitTarget tokens).2).result).toValue) := by
  obtain ⟨htoken, hvalue⟩ := result_conclude (splitTarget tokens).1.isSome
    (driveRoot limit scope (splitTarget tokens).2).result
  rw [evaluateTokens_eq, Reported.result_bind, Reported.result_bind]
  generalize (splitTarget tokens).1 = target at *
  cases target with
  | none => simp only [assign, Reported.result_pure, htoken]
  | some s =>
    simp only [assign, htoken, hvalue]
    split <;> rfl

theorem splitTarget_eq_some {tokens : List Token} {s : String} :
    (splitTarget tokens).1 = some s ↔
      s ≠ "" ∧ ∃ rest, tokens = .name s :: .operator .set :: rest := by
  constructor
  · intro h
    unfold splitTarget at h
    split at h
    · rename_i s' rest
      split at h
      · cases h
      · rename_i hs
        obtain rfl := Option.some.inj h
        exact ⟨by simpa using hs, rest, rfl⟩
    · cases h
  · rintro ⟨hs, rest, rfl⟩
    have hempty : s.isEmpty = false := by simpa using hs
    rw [splitTarget, hempty]
    rfl

/-- The table after a value was written to a name: the value has the name in every spelling, the other
names keep theirs, and the names stay in order, as they were first written. -/
structure Writes (store : Table Value) (s : String) (value : Value) (after : Table Value) : Prop where
  values (name : String) :
    after.get? name = if foldName name = foldName s then some value else store.get? name
  names : after.names = if (store.get? s).isSome then store.names else store.names ++ [s]

theorem writes_insert (store : Table Value) (s : String) (value : Value) :
    Writes store s value (store.insert s value) :=
  ⟨store.get?_insert s value, store.names_insert s value⟩

/-- An evaluation: its limit, functions and tokens, and the token that it returned. -/
structure Event where
  limit : Nat
  functions : Table Function
  tokens : List Token
  returned : Token

namespace Event

/-- The name that an evaluation assigns to. -/
def target? (e : Event) : Option String := (splitTarget e.tokens).1

/-- Whether an evaluation assigns to a name, in any spelling. -/
def assignsTo (name : String) (e : Event) : Bool := e.target?.any (foldName · = foldName name)

end Event

/-- The table that evaluations one after the other leave, and what they were. -/
inductive Runs (init : Table Value) : List Event → Table Value → Prop where
  | nil : Runs init [] init
  | snoc {events : List Event} {store after : Table Value} {limit : Nat} {functions : Table Function}
      {tokens : List Token} {returned : Token} :
      Runs init events store →
      (evaluateTokens limit ⟨functions, store⟩ tokens).result = (returned, after) →
      Runs init (events ++ [⟨limit, functions, tokens, returned⟩]) after

/-- What an evaluation leaves, by the token that it returns. -/
theorem writes_of_result {limit : Nat} {functions : Table Function} {tokens : List Token}
    {store after : Table Value} {returned : Token}
    (h : (evaluateTokens limit ⟨functions, store⟩ tokens).result = (returned, after)) :
    match (splitTarget tokens).1 with
    | none => after = store
    | some s => Writes store s returned.toValue after := by
  rw [result_evaluateTokens] at h
  obtain ⟨rfl, rfl⟩ := Prod.mk.inj h
  split
  · rfl
  · exact writes_insert store _ _

theorem contains_congr (store : Table Value) {name other : String}
    (h : foldName name = foldName other) : store.contains name = store.contains other := by
  rw [Table.contains, Table.contains, store.get?_congr h]

section Run

variable {init store : Table Value} {events : List Event}

/-- After a run a name has the value of the token that was returned last for it. -/
theorem Runs.get? (h : Runs init events store) (name : String) :
    store.get? name =
      match (events.filter (Event.assignsTo name)).getLast? with
      | some e => some e.returned.toValue
      | none => init.get? name := by
  induction h with
  | nil => rfl
  | @snoc events store after limit functions tokens returned _ hresult ih =>
    have hwrites := writes_of_result hresult
    have htarget : (⟨limit, functions, tokens, returned⟩ : Event).target? = (splitTarget tokens).1 := rfl
    rw [List.filter_append]
    cases hs : (splitTarget tokens).1 with
    | none =>
      rw [hs] at hwrites htarget
      obtain rfl : after = store := hwrites
      simp [Event.assignsTo, htarget, ih]
    | some s =>
      rw [hs] at hwrites htarget
      rw [hwrites.values]
      by_cases hname : foldName name = foldName s
      · simp [Event.assignsTo, htarget, hname]
      · simp [Event.assignsTo, htarget, hname, Ne.symm hname, ih]

theorem Runs.isSome_get? (h : Runs init events store) (name : String) :
    (store.get? name).isSome = (init.contains name || events.any (Event.assignsTo name)) := by
  rw [h.get?]
  cases hlast : (events.filter (Event.assignsTo name)).getLast? with
  | none =>
    have hnone : events.any (Event.assignsTo name) = false := by
      rw [List.getLast?_eq_none_iff, List.filter_eq_nil_iff] at hlast
      exact List.any_eq_false.mpr hlast
    rw [hnone, Bool.or_false]
    rfl
  | some e =>
    have hmem := List.mem_filter.mp (List.mem_of_getLast? hlast)
    have hany : events.any (Event.assignsTo name) = true :=
      List.any_eq_true.mpr ⟨e, hmem.1, hmem.2⟩
    rw [hany, Bool.or_true]
    rfl

end Run

/-- Whether two spellings are of one name. -/
def sameName (s t : String) : Bool := foldName s = foldName t

/-- The names that a run adds: those of its targets that are not there, each as first written. -/
def newNames (init : Table Value) (events : List Event) : List String :=
  ((events.filterMap Event.target?).filter fun s => !init.contains s).eraseDupsBy sameName

theorem eraseDupsBy_concat (names : List String) (s : String) :
    (names ++ [s]).eraseDupsBy sameName =
      if names.any (sameName s) then names.eraseDupsBy sameName
      else names.eraseDupsBy sameName ++ [s] := by
  induction hlen : names.length using Nat.strongRecOn generalizing names with
  | _ n ih =>
    subst hlen
    cases names with
    | nil => rfl
    | cons t rest =>
      rw [List.cons_append, List.eraseDupsBy_cons, List.eraseDupsBy_cons, List.filter_append]
      cases hst : sameName s t with
      | true => simp [hst]
      | false =>
        -- A name that `t` takes the place of is not the same as `s`.
        have hany : (rest.filter fun u => sameName u t = false).any (sameName s) =
            rest.any (sameName s) := by
          rw [List.any_filter]
          refine List.any_congr rfl fun u => ?_
          cases hsu : sameName s u with
          | false => rw [Bool.and_false]
          | true =>
            have hu : sameName u t = false := by
              simp only [sameName, decide_eq_true_eq, decide_eq_false_iff_not] at hsu hst ⊢
              rwa [← hsu]
            rw [hu]
            rfl
        have hshorter : (rest.filter fun u => sameName u t = false).length < (t :: rest).length :=
          Nat.lt_succ_of_le (List.length_filter_le _ _)
        have hrest := ih _ hshorter _ rfl
        rw [hany] at hrest
        have hkept : [s].filter (fun u => sameName u t = false) = [s] := by simp [hst]
        rw [hkept, hrest, List.any_cons, hst, Bool.false_or]
        split <;> rfl

theorem newNames_snoc (init : Table Value) (events : List Event) (e : Event) :
    newNames init (events ++ [e]) =
      match e.target? with
      | none => newNames init events
      | some s =>
        if init.contains s || events.any (Event.assignsTo s) then newNames init events
        else newNames init events ++ [s] := by
  unfold newNames
  rw [List.filterMap_append, List.filter_append]
  cases hs : e.target? with
  | none => simp [hs]
  | some s =>
    simp only [List.filterMap_cons, hs, List.filterMap_nil]
    cases hcontains : init.contains s with
    | true => simp [hcontains]
    | false =>
      have hkept : [s].filter (fun s => !init.contains s) = [s] := by simp [hcontains]
      have hany : ((events.filterMap Event.target?).filter fun s => !init.contains s).any
          (sameName s) = events.any (Event.assignsTo s) := by
        rw [List.any_filter, List.any_filterMap]
        refine List.any_congr rfl fun e => ?_
        cases htarget : e.target? with
        | none => simp [Event.assignsTo, htarget]
        | some u =>
          by_cases hu : foldName u = foldName s
          · have hinit : init.contains u = false := (contains_congr init hu).trans hcontains
            simp [Event.assignsTo, htarget, sameName, hu, hinit]
          · simp [Event.assignsTo, htarget, sameName, hu, Ne.symm hu]
      rw [hkept, eraseDupsBy_concat, Bool.false_or, hany]

theorem Runs.names {init store : Table Value} {events : List Event} (h : Runs init events store) :
    store.names = init.names ++ newNames init events := by
  induction h with
  | nil => simp [newNames]
  | @snoc events store after limit functions tokens returned hruns hresult ih =>
    have hwrites := writes_of_result hresult
    rw [newNames_snoc]
    simp only [Event.target?]
    cases hs : (splitTarget tokens).1 with
    | none =>
      rw [hs] at hwrites
      obtain rfl : after = store := hwrites
      exact ih
    | some s =>
      rw [hs] at hwrites
      rw [hwrites.names, hruns.isSome_get?, ih]
      dsimp only
      split
      · rfl
      · exact List.append_assoc ..

/-- Evaluations write the variables only by an assignment at the start of their tokens, and then the
value of the token that they return, which is null unless a scalar is left; it is computed against the
variables as they were. So over a run the names stay in order, new ones come in the order in which they
are first assigned to, and each name has the value of the last evaluation that assigned to it. -/
theorem assignments_written :
    (∀ limit functions store tokens,
      (∀ s rest, s ≠ "" → tokens ≠ .name s :: .operator .set :: rest) →
        (evaluateTokens limit ⟨functions, store⟩ tokens).result.2 = store) ∧
    (∀ limit functions store s rest, s ≠ "" →
      let evaluated :=
        (evaluateTokens limit ⟨functions, store⟩ (.name s :: .operator .set :: rest)).result
      evaluated.1 = answer (driveRoot limit ⟨functions, store⟩ rest).result ∧
        Writes store s evaluated.1.toValue evaluated.2) ∧
    ∀ init events store, Runs init events store →
      store.names = init.names ++ newNames init events ∧
      ∀ name, store.get? name =
        match (events.filter (Event.assignsTo name)).getLast? with
        | some e => some e.returned.toValue
        | none => init.get? name := by
  refine ⟨fun limit functions store tokens h => ?_, fun limit functions store s rest hs => ?_,
    fun init events store h => ⟨h.names, h.get?⟩⟩
  · cases htarget : (splitTarget tokens).1 with
    | none => rw [result_evaluateTokens, htarget]
    | some s =>
      obtain ⟨hs, rest, htokens⟩ := splitTarget_eq_some.mp htarget
      exact absurd htokens (h s rest hs)
  · have hsplit : splitTarget (.name s :: .operator .set :: rest) = (some s, rest) := by
      simp [splitTarget, hs]
    rw [result_evaluateTokens, hsplit]
    exact ⟨rfl, writes_insert store s _⟩

end Reckon
