import Reckon.Proofs.RepairPlacement

/-!
Repair by restarts.

The rules for `=` and for separators ask for a scan that starts over after every change, on all that is
left, and that repairs the sequences inside a token whenever it passes one. `ScansSequence` states such
scans. What a scan has passed is placed, so starting over leads back to where the change was made; by
that each scan that ends gives what one pass gives, and there is one that ends.
-/

namespace Reckon

/-! The diagnostics of a repair. -/

/-- Whether a repair of `a` tells by its diagnostics whether it was sound and whether it was left
alone. -/
structure Faithful {α : Type} (a : α) (repaired : Reported (Checked α)) : Prop where
  invalid : repaired.result.valid = false ↔ ∃ d ∈ repaired.diagnostics, d.severity = .error
  silent : repaired.diagnostics = [] → repaired.result.value = a

namespace Faithful
variable {α β γ : Type} {a : α} {b : β} {x : Reported (Checked α)}

theorem unchanged (a : α) : Faithful a (pure ⟨a, true⟩) := ⟨by simp, fun _ => rfl⟩

theorem inside (f : α → β) (h : Faithful a x) :
    Faithful (f a) (do let u ← x; pure ⟨f u.value, u.valid⟩) := by
  refine ⟨by simpa using h.invalid, fun hd => ?_⟩
  simp only [Reported.diagnostics_bind, Reported.diagnostics_pure, List.append_nil] at hd
  exact congrArg f (h.silent hd)

theorem both (f : α → β → γ) {y : α → Reported (Checked β)} {g : α → β} (h : Faithful a x)
    (hy : ∀ u, Faithful (g u) (y u)) :
    Faithful (f a (g a)) (do
      let u ← x
      let v ← y u.value
      pure ⟨f u.value v.value, u.valid && v.valid⟩) := by
  have hv := hy x.result.value
  constructor
  · simp only [Reported.result_bind, Reported.result_pure, Reported.diagnostics_bind,
      Reported.diagnostics_pure, List.append_nil, Bool.and_eq_false_iff, h.invalid, hv.invalid,
      List.mem_append, or_and_right, exists_or]
  · intro hd
    simp only [Reported.diagnostics_bind, Reported.diagnostics_pure, List.append_nil,
      List.append_eq_nil_iff] at hd
    have ha := h.silent hd.1
    have hb := hv.silent hd.2
    change f x.result.value (y x.result.value).result.value = f a (g a)
    rw [hb, ha]

/-- Whatever comes after an error was given. -/
theorem after {cause : Cause} (hcause : cause.severity = .error) (y : Reported (Checked α)) :
    Faithful a (do
      report cause
      let v ← y
      pure ⟨v.value, false⟩) := by
  constructor
  · refine ⟨fun _ => ⟨⟨cause, none⟩, ?_, hcause⟩, fun _ => rfl⟩
    simp [report, Reported.report]
  · intro hd
    simp [report, Reported.report] at hd

end Faithful

theorem faithful_placeAssignment (source : String) (root : Bool) (before : List Token) :
    Faithful (.operator .set :: before) (placeAssignment source root before) := by
  rw [placeAssignment_eq source root before []]
  split
  · split
    · exact .unchanged _
    · constructor
      · simp [report, Reported.report, Diagnostic.severity, Cause.severity]
      · intro hd
        simp [report, Reported.report] at hd
  · constructor
    · simp [placeAssignment.misplaced, report, Reported.report, Diagnostic.severity, Cause.severity]
    · intro hd
      simp [placeAssignment.misplaced, report, Reported.report] at hd

mutual

theorem faithful_repairToken (source : String) : (t : Token) → Faithful t (repairToken source t)
  | .group inner => by
    rw [repairToken]
    exact (faithful_repairSequence source false [] inner).inside Token.group
  | .conditional whenTrue whenFalse => by
    rw [repairToken]
    exact (faithful_repairSequence source false [] whenTrue).both Token.conditional
      fun _ => faithful_repairSequence source false [] whenFalse
  | .call s arguments => by
    rw [repairToken]
    exact (faithful_repairArguments source [] arguments).inside (Token.call s)
  | .undefined | .number _ | .text _ | .operator _ | .name _ => .unchanged _

theorem faithful_repairSequence (source : String) (root : Bool) (before : List Token) :
    (rest : List Token) →
      Faithful (before.reverse ++ rest) (repairSequence source root before rest)
  | [] => by
    rw [repairSequence, List.append_nil]
    exact .unchanged _
  | t :: rest => by
    have hnext : before.reverse ++ t :: rest = (t :: before).reverse ++ rest := by simp
    rw [repairSequence, hnext]
    split
    · rename_i hop
      obtain rfl := eq_of_isOperator hop
      exact (faithful_placeAssignment source root before).both (fun _ ts => ts)
        fun us => faithful_repairSequence source root us rest
    · exact (faithful_repairToken source t).both (fun _ ts => ts)
        fun u => faithful_repairSequence source root (u :: before) rest

theorem faithful_repairArguments (source : String) (before : List Token) : (rest : List Token) →
    Faithful (before.reverse ++ rest) (repairArguments source before rest)
  | [] => by
    rw [repairArguments, List.append_nil]
    exact .unchanged _
  | t :: rest => by
    have hnext : before.reverse ++ t :: rest = (t :: before).reverse ++ rest := by simp
    rw [repairArguments, hnext]
    split
    · exact .after rfl _
    · split
      · exact .after rfl _
      · exact (faithful_repairToken source t).both (fun _ ts => ts)
          fun u => faithful_repairArguments source (u :: before) rest

end

/-! Scans that start over. -/

mutual

/-- The repair of a token by scans that start over after every change. -/
inductive RepairsToken (source : String) : Token → Reported (Checked Token) → Prop where
  | plain {t : Token} : (∀ s arguments, t ≠ .call s arguments) → (∀ inner, t ≠ .group inner) →
      (∀ whenTrue whenFalse, t ≠ .conditional whenTrue whenFalse) →
        RepairsToken source t (pure ⟨t, true⟩)
  | group {inner : List Token} {repaired : Reported (Checked (List Token))} :
      ScansSequence source false (assigns false inner) [] inner repaired →
        RepairsToken source (.group inner)
          (do let inner ← repaired; pure ⟨.group inner.value, inner.valid⟩)
  | conditional {whenTrue whenFalse : List Token} {first second : Reported (Checked (List Token))} :
      ScansSequence source false (assigns false whenTrue) [] whenTrue first →
      ScansSequence source false (assigns false whenFalse) [] whenFalse second →
        RepairsToken source (.conditional whenTrue whenFalse)
          (do
            let whenTrue ← first
            let whenFalse ← second
            pure ⟨.conditional whenTrue.value whenFalse.value, whenTrue.valid && whenFalse.valid⟩)
  | call {s : String} {arguments : List Token} {repaired : Reported (Checked (List Token))} :
      ScansArguments source [] arguments repaired →
        RepairsToken source (.call s arguments)
          (do let arguments ← repaired; pure ⟨.call s arguments.value, arguments.valid⟩)

/-- The scan of a sequence from behind `before`, the last first; `assigning` says whether the
sequence began with an assignment when the scan began. -/
inductive ScansSequence (source : String) : (root assigning : Bool) → (before rest : List Token) →
    Reported (Checked (List Token)) → Prop where
  | done {root assigning : Bool} {before : List Token} :
      ScansSequence source root assigning before [] (pure ⟨before.reverse, true⟩)
  | kept {root : Bool} {before rest : List Token} {repaired : Reported (Checked (List Token))} :
      before.length = 1 → ScansSequence source root true (.operator .set :: before) rest repaired →
        ScansSequence source root true before (.operator .set :: rest) repaired
  | chained {root : Bool} {before rest : List Token} {repaired : Reported (Checked (List Token))} :
      before.length ≠ 1 →
      ScansSequence source root (assigns root (before.reverse ++ rest)) []
        (before.reverse ++ rest) repaired →
        ScansSequence source root true before (.operator .set :: rest)
          (do report (.chainedAssignment source); repaired)
  | misplaced {root : Bool} {before rest : List Token}
      {repaired : Reported (Checked (List Token))} :
      ScansSequence source root (assigns root ((dropLeft before).reverse ++ rest)) []
        ((dropLeft before).reverse ++ rest) repaired →
        ScansSequence source root false before (.operator .set :: rest)
          (do
            report (.misplacedAssignment source)
            let sequence ← repaired
            pure ⟨sequence.value, false⟩)
  | token {root assigning : Bool} {before rest : List Token} {t : Token}
      {first : Reported (Checked Token)} {others : Reported (Checked (List Token))} :
      t ≠ .operator .set → RepairsToken source t first →
      ScansSequence source root assigning (first.result.value :: before) rest others →
        ScansSequence source root assigning before (t :: rest)
          (do
            let token ← first
            let sequence ← others
            pure ⟨sequence.value, token.valid && sequence.valid⟩)

inductive ScansArguments (source : String) : (before rest : List Token) →
    Reported (Checked (List Token)) → Prop where
  | done {before : List Token} : ScansArguments source before [] (pure ⟨before.reverse, true⟩)
  | assignment {before rest : List Token} {repaired : Reported (Checked (List Token))} :
      ScansArguments source [] (before.reverse ++ rest) repaired →
        ScansArguments source before (.operator .set :: rest)
          (do
            report (.assignmentInArguments source)
            let sequence ← repaired
            pure ⟨sequence.value, false⟩)
  | separator {before rest : List Token} {repaired : Reported (Checked (List Token))} :
      endsOpen before → ScansArguments source [] (before.reverse ++ rest) repaired →
        ScansArguments source before (.operator .comma :: rest)
          (do
            report (.misplacedSeparator source)
            let sequence ← repaired
            pure ⟨sequence.value, false⟩)
  | token {before rest : List Token} {t : Token} {first : Reported (Checked Token)}
      {others : Reported (Checked (List Token))} :
      t ≠ .operator .set → (t = .operator .comma → endsOpen before = false) →
      RepairsToken source t first →
      ScansArguments source (first.result.value :: before) rest others →
        ScansArguments source before (t :: rest)
          (do
            let token ← first
            let sequence ← others
            pure ⟨sequence.value, token.valid && sequence.valid⟩)

end

mutual

theorem repairsToken_of_placed (source : String) : (t : Token) → t.Placed →
    RepairsToken source t (pure ⟨t, true⟩)
  | .group inner, h => by
    simp only [Token.Placed] at h
    have hinner := scansSequence_append_of_placed source inner [] h rfl .done
    simp only [List.append_nil, List.reverse_reverse, List.reverse_nil, List.nil_append] at hinner
    exact .group hinner
  | .conditional whenTrue whenFalse, h => by
    simp only [Token.Placed] at h
    have htrue := scansSequence_append_of_placed source whenTrue [] h.1 rfl .done
    have hfalse := scansSequence_append_of_placed source whenFalse [] h.2 rfl .done
    simp only [List.append_nil, List.reverse_reverse, List.reverse_nil, List.nil_append]
      at htrue hfalse
    exact .conditional htrue hfalse
  | .call s arguments, h => by
    simp only [Token.Placed] at h
    have harguments := scansArguments_append_of_placed source arguments [] h .done
    simp only [List.append_nil, List.reverse_reverse] at harguments
    exact .call harguments
  | .undefined, _ | .number _, _ | .text _, _ | .operator _, _ | .name _, _ =>
    .plain nofun nofun nofun

/-- A scan passes what is placed without a change. -/
theorem scansSequence_append_of_placed (source : String) {root assigning : Bool}
    {repaired : Reported (Checked (List Token))} : (ts rest : List Token) → {before : List Token} →
      SequencePlaced root before ts → assigning = assigns root (before.reverse ++ (ts ++ rest)) →
      ScansSequence source root assigning (ts.reverse ++ before) rest repaired →
        ScansSequence source root assigning before (ts ++ rest) repaired
  | [], _, _, _, _, hrest => hrest
  | t :: ts, rest, before, h, hassigning, hrest => by
    simp only [SequencePlaced] at h
    obtain ⟨hset, ht, hts⟩ := h
    rw [List.reverse_cons, List.append_assoc, List.singleton_append] at hrest
    have hnext : before.reverse ++ (t :: ts ++ rest) = (t :: before).reverse ++ (ts ++ rest) := by
      simp
    have ih := scansSequence_append_of_placed source ts rest hts (hnext ▸ hassigning) hrest
    by_cases hop : t = .operator .set
    · subst hop
      have hmay := hset rfl
      obtain ⟨-, target, hbefore, -⟩ := hset rfl
      obtain rfl : assigning = true := hassigning.trans (hmay.assigns _)
      exact .kept (by rw [hbefore, List.length_singleton]) ih
    · have hscan := ScansSequence.token hop (repairsToken_of_placed source t ht) ih
      rw [pure_bind] at hscan
      exact (bind_pure repaired) ▸ hscan

theorem scansArguments_append_of_placed (source : String)
    {repaired : Reported (Checked (List Token))} : (ts rest : List Token) → {before : List Token} →
      ArgumentsPlaced before ts → ScansArguments source (ts.reverse ++ before) rest repaired →
        ScansArguments source before (ts ++ rest) repaired
  | [], _, _, _, hrest => hrest
  | t :: ts, rest, before, h, hrest => by
    simp only [ArgumentsPlaced] at h
    obtain ⟨hset, hcomma, ht, hts⟩ := h
    rw [List.reverse_cons, List.append_assoc, List.singleton_append] at hrest
    have ih := scansArguments_append_of_placed source ts rest hts hrest
    have hscan := ScansArguments.token hset hcomma (repairsToken_of_placed source t ht) ih
    rw [pure_bind] at hscan
    exact (bind_pure repaired) ▸ hscan

end

theorem assigns_repairToken (source : String) (root : Bool) (ts rest : List Token) (t : Token) :
    assigns root (ts ++ (repairToken source t).result.value :: rest) =
      assigns root (ts ++ t :: rest) := by
  match ts with
  | [] =>
    cases rest with
    | nil => rfl
    | cons next rest => simp only [List.nil_append, assigns, isTarget_repairToken]
  | [u] => simp only [List.singleton_append, assigns, isOperator_repairToken]
  | u :: v :: ts => rfl

mutual

theorem RepairsToken.eq {source : String} : {t : Token} → {repaired : Reported (Checked Token)} →
    RepairsToken source t repaired → repaired = repairToken source t
  | t, _, .plain hcall hgroup hconditional => by
    cases t with
    | call s arguments => exact absurd rfl (hcall s arguments)
    | group inner => exact absurd rfl (hgroup inner)
    | conditional whenTrue whenFalse => exact absurd rfl (hconditional whenTrue whenFalse)
    | undefined | number _ | text _ | operator _ | name _ => rfl
  | _, _, .group hinner => by
    rw [repairToken, ← hinner.eq sequencePlaced_nil rfl]
  | _, _, .conditional htrue hfalse => by
    rw [repairToken, ← htrue.eq sequencePlaced_nil rfl,
      ← hfalse.eq sequencePlaced_nil rfl]
  | _, _, .call harguments => by
    rw [repairToken, ← harguments.eq argumentsPlaced_nil]
termination_by structural _ _ h => h

theorem ScansSequence.eq {source : String} : {root assigning : Bool} → {before rest : List Token} →
    {repaired : Reported (Checked (List Token))} →
      ScansSequence source root assigning before rest repaired →
      SequencePlaced root [] before.reverse → assigning = assigns root (before.reverse ++ rest) →
        repaired = repairSequence source root before rest
  | _, _, _, _, _, .done, _, _ => by rw [repairSequence]
  | _, _, _, _, _, .kept hlength hrest, hplaced, hassigning => by
    have hmay := mayAssign_of_assigns hassigning.symm hlength
    rw [repairSequence_kept source hassigning.symm hlength]
    refine hrest.eq (sequencePlaced_snoc.mpr ⟨hplaced, fun _ => hmay, ?_⟩) ?_
    · simp only [Token.Placed]
    · simpa using hassigning
  | _, _, before, .operator .set :: rest, _, .chained hlength hrest, hplaced, hassigning => by
    have hagain := repairSequence_append_of_placed source before.reverse rest hplaced
    rw [List.reverse_reverse, List.append_nil] at hagain
    rw [repairSequence_chained source hassigning.symm hlength, ← hagain,
      ← hrest.eq sequencePlaced_nil rfl]
  | _, _, before, .operator .set :: rest, _, .misplaced hrest, hplaced, hassigning => by
    have hagain := repairSequence_append_of_placed source (dropLeft before).reverse rest
      (placed_dropLeft hplaced)
    rw [List.reverse_reverse, List.append_nil] at hagain
    rw [repairSequence_misplaced source hassigning.symm, ← hagain,
      ← hrest.eq sequencePlaced_nil rfl]
  | root, assigning, before, t :: rest, _, .token hset ht hrest, hplaced, hassigning => by
    have hfirst := ht.eq
    have hnext := sequencePlaced_repairToken hplaced hset (placed_repairToken source t)
    have hbegin : assigning =
        assigns root (((repairToken source t).result.value :: before).reverse ++ rest) := by
      rw [hassigning, ← assigns_repairToken source]
      simp
    rw [← hfirst] at hnext hbegin
    rw [repairSequence_token source hset, hrest.eq hnext hbegin, hfirst]
    rfl
termination_by structural _ _ _ _ _ h => h

theorem ScansArguments.eq {source : String} : {before rest : List Token} →
    {repaired : Reported (Checked (List Token))} → ScansArguments source before rest repaired →
      ArgumentsPlaced [] before.reverse → repaired = repairArguments source before rest
  | _, _, _, .done, _ => by rw [repairArguments]
  | before, .operator .set :: rest, _, .assignment hrest, hplaced => by
    have hagain := repairArguments_append_of_placed source before.reverse rest hplaced
    rw [List.reverse_reverse, List.append_nil] at hagain
    rw [repairArguments_assignment, ← hagain, ← hrest.eq argumentsPlaced_nil]
  | before, .operator .comma :: rest, _, .separator hopen hrest, hplaced => by
    have hagain := repairArguments_append_of_placed source before.reverse rest hplaced
    rw [List.reverse_reverse, List.append_nil] at hagain
    rw [repairArguments_separator source hopen, ← hagain, ← hrest.eq argumentsPlaced_nil]
  | before, t :: rest, _, .token hset hcomma ht hrest, hplaced => by
    have hfirst := ht.eq
    have hnext := argumentsPlaced_repairToken hplaced hset hcomma (placed_repairToken source t)
    rw [← hfirst] at hnext
    rw [repairArguments_token source hset hcomma, hrest.eq hnext, hfirst]
    rfl
termination_by structural _ _ _ h => h

end

mutual

theorem repairsToken_repairToken (source : String) : (t : Token) →
    RepairsToken source t (repairToken source t)
  | .group inner => by
    rw [repairToken]
    exact .group (scansSequence_repairSequence source false inner [] sequencePlaced_nil)
  | .conditional whenTrue whenFalse => by
    rw [repairToken]
    exact .conditional (scansSequence_repairSequence source false whenTrue [] sequencePlaced_nil)
      (scansSequence_repairSequence source false whenFalse [] sequencePlaced_nil)
  | .call s arguments => by
    rw [repairToken]
    exact .call (scansArguments_repairArguments source arguments [] argumentsPlaced_nil)
  | .undefined | .number _ | .text _ | .operator _ | .name _ => .plain nofun nofun nofun

theorem scansSequence_repairSequence (source : String) (root : Bool) : (rest before : List Token) →
    SequencePlaced root [] before.reverse →
      ScansSequence source root (assigns root (before.reverse ++ rest)) before rest
        (repairSequence source root before rest)
  | [], before, _ => by
    rw [repairSequence]
    exact .done
  | t :: rest, before, h => by
    by_cases hop : t = .operator .set
    · subst hop
      cases hassigns : assigns root (before.reverse ++ .operator .set :: rest) with
      | true =>
        by_cases hlength : before.length = 1
        · have hmay := mayAssign_of_assigns hassigns hlength
          have hnext : SequencePlaced root [] (.operator .set :: before).reverse :=
            sequencePlaced_snoc.mpr ⟨h, fun _ => hmay, by simp only [Token.Placed]⟩
          have ih := scansSequence_repairSequence source root rest _ hnext
          rw [List.reverse_cons, List.append_assoc, List.singleton_append, hassigns] at ih
          rw [repairSequence_kept source hassigns hlength]
          exact .kept hlength ih
        · have ih := scansSequence_repairSequence source root rest _ h
          rw [repairSequence_chained source hassigns hlength]
          refine .chained hlength (scansSequence_append_of_placed source _ _ h rfl ?_)
          rwa [List.reverse_reverse, List.append_nil]
      | false =>
        have hdropped := placed_dropLeft h
        have ih := scansSequence_repairSequence source root rest _ hdropped
        rw [repairSequence_misplaced source hassigns]
        refine .misplaced (scansSequence_append_of_placed source _ _ hdropped rfl ?_)
        rwa [List.reverse_reverse, List.append_nil]
    · have ht := repairsToken_repairToken source t
      have hplaced := sequencePlaced_repairToken h hop (placed_repairToken source t)
      have ih := scansSequence_repairSequence source root rest _ hplaced
      rw [List.reverse_cons, List.append_assoc, List.singleton_append, assigns_repairToken] at ih
      rw [repairSequence_token source hop]
      exact .token hop ht ih

theorem scansArguments_repairArguments (source : String) : (rest before : List Token) →
    ArgumentsPlaced [] before.reverse →
      ScansArguments source before rest (repairArguments source before rest)
  | [], before, _ => by
    rw [repairArguments]
    exact .done
  | t :: rest, before, h => by
    by_cases hset : t = .operator .set
    · subst hset
      have ih := scansArguments_repairArguments source rest _ h
      rw [repairArguments_assignment]
      refine .assignment (scansArguments_append_of_placed source _ _ h ?_)
      rwa [List.reverse_reverse, List.append_nil]
    · by_cases hcomma : t = .operator .comma ∧ endsOpen before = true
      · obtain ⟨rfl, hopen⟩ := hcomma
        have ih := scansArguments_repairArguments source rest _ h
        rw [repairArguments_separator source hopen]
        refine .separator hopen (scansArguments_append_of_placed source _ _ h ?_)
        rwa [List.reverse_reverse, List.append_nil]
      · have hfull : t = .operator .comma → endsOpen before = false := by
          intro hop
          simpa [hop] using hcomma
        have ht := repairsToken_repairToken source t
        have hplaced := argumentsPlaced_repairToken h hset hfull (placed_repairToken source t)
        have ih := scansArguments_repairArguments source rest _ hplaced
        rw [repairArguments_token source hset hfull]
        exact .token hset hfull ht ih

end

/-- The scans of a sequence of tokens that start over after every change end, and all with what one
pass gives. A second repair has nothing left to do. The first was not sound just if it gave an error,
and it gave no diagnostic just if it changed nothing. -/
theorem repair_settles (source : String) (root : Bool) (tokens : List Token) :
    (∀ repaired, ScansSequence source root (assigns root tokens) [] tokens repaired ↔
      repaired = repair source root tokens) ∧
    repair source root (repair source root tokens).result.value =
      pure ⟨(repair source root tokens).result.value, true⟩ ∧
    ((repair source root tokens).result.valid = false ↔
      ∃ d ∈ (repair source root tokens).diagnostics, d.severity = .error) ∧
    ((repair source root tokens).diagnostics = [] ↔
      (repair source root tokens).result.value = tokens) := by
  have hplaced := placed_repair source root tokens
  have hfaithful := faithful_repairSequence source root [] tokens
  refine ⟨fun repaired => ⟨fun h => h.eq sequencePlaced_nil rfl, ?_⟩,
    repair_of_placed source hplaced, hfaithful.invalid, hfaithful.silent, ?_⟩
  · rintro rfl
    exact scansSequence_repairSequence source root tokens [] sequencePlaced_nil
  · -- What was not changed was placed, and about that repair has nothing to report.
    intro hvalue
    rw [hvalue] at hplaced
    rw [repair_of_placed source hplaced, Reported.diagnostics_pure]

end Reckon
