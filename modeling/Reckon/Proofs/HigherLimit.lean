import Reckon.Proofs.LexemeReading
import Reckon.Proofs.NestingLimit

/-!
A higher limit of nesting changes nothing for formulas that do not meet the lower one.

Only the reader of a region and a step of reduction look at the levels they have left. A region that was
read without reaching the limit is read the same with more levels, and so is a sequence reduced that
does not meet it: the readings and reductions inside agree level by level.
-/

namespace Reckon

/-! Reading. -/

theorem Reported.bind_agree {α β : Type} {Q : Cause → Prop} {x x' : Reported α} {f f' : α → Reported β}
    (hx : x.AllCauses Q → x = x')
    (hf : (f x.result).AllCauses Q → f x.result = f' x.result)
    (h : (x >>= f).AllCauses Q) : x >>= f = x' >>= f' := by
  rw [Reported.allCauses_bind] at h
  rw [← hx h.1]
  exact Reported.bind_congr (hf h.2)

/-- Whether a reader of regions reads as another one does wherever its diagnostics are all of a kind. -/
def ReadsAs (Q : Cause → Prop) (nested nested' : RegionReader) : Prop :=
  ∀ inArguments pos cs, (nested inArguments pos cs).AllCauses Q →
    nested inArguments pos cs = nested' inArguments pos cs

section Reading

variable {Q : Cause → Prop} {nested nested' : RegionReader} (hreads : ReadsAs Q nested nested')

include hreads

theorem ReadsAs.readBranch (branch : Branch) (start : Nat) (text : List Char)
    (h : (readBranch nested branch start text).AllCauses Q) :
    Reckon.readBranch nested branch start text = Reckon.readBranch nested' branch start text := by
  unfold Reckon.readBranch at h ⊢
  split_ifs at h ⊢
  · rfl
  · exact hreads false start text h

theorem ReadsAs.readConditional (pos : Nat) (cs : List Char)
    (h : (readConditional nested pos cs).AllCauses Q) :
    Reckon.readConditional nested pos cs = Reckon.readConditional nested' pos cs := by
  unfold Reckon.readConditional at h ⊢
  refine Reported.bind_agree (fun _ => rfl) (fun h => ?_) h
  refine Reported.bind_agree (fun _ => rfl) (fun h => ?_) h
  refine Reported.bind_agree (hreads.readBranch .whenTrue _ _) (fun h => ?_) h
  exact Reported.bind_agree (hreads.readBranch .whenFalse _ _) (fun _ => rfl) h

theorem ReadsAs.readNamed (pos : Nat) (cs : List Char) (h : (readNamed nested pos cs).AllCauses Q) :
    Reckon.readNamed nested pos cs = Reckon.readNamed nested' pos cs := by
  unfold Reckon.readNamed at h ⊢
  dsimp only at h ⊢
  split at h
  · rfl
  · refine Reported.bind_agree (fun _ => rfl) (fun h => ?_) h
    exact Reported.bind_agree (hreads true _ _) (fun _ => rfl) h
  · rfl

theorem ReadsAs.readLexeme (inArguments : Bool) (pos : Nat) (c : Char) (cs : List Char)
    (h : (readLexeme nested inArguments pos c cs).AllCauses Q) :
    Reckon.readLexeme nested inArguments pos c cs = Reckon.readLexeme nested' inArguments pos c cs := by
  revert h
  unfold Reckon.readLexeme
  split
  · exact hreads.readNamed pos (c :: cs)
  · split
    · exact fun _ => rfl
    · split
      · exact fun _ => rfl
      · split
        · exact fun _ => rfl
        · split
          · refine Reported.bind_agree (fun _ => rfl) fun h => ?_
            exact Reported.bind_agree (hreads false _ _) (fun _ => rfl) h
          · split
            · exact hreads.readConditional pos cs
            · exact fun _ => rfl

end Reading

theorem ReadsAs.readRegion {Q : Cause → Prop} {nested nested' : RegionReader}
    (hreads : ReadsAs Q nested nested') (inArguments : Bool) (before : List Token) (pos : Nat)
    (cs : List Char) (h : (readRegion nested inArguments before pos cs).AllCauses Q) :
    Reckon.readRegion nested inArguments before pos cs =
      Reckon.readRegion nested' inArguments before pos cs := by
  induction hlen : cs.length using Nat.strong_induction_on generalizing before pos cs with
  | _ n ih =>
    subst hlen
    cases hdrop : cs.dropWhile isGap with
    | nil => rw [readRegion_nil hdrop, readRegion_nil hdrop]
    | cons c more =>
      have hshorter := @length_rest_lt_of_readLexeme nested inArguments
        (pos + (cs.takeWhile isGap).length) c cs more _ hdrop rfl
      rw [readRegion_cons hdrop] at h
      rw [readRegion_cons hdrop, readRegion_cons hdrop]
      refine Reported.bind_agree (hreads.readLexeme inArguments _ c more) (fun h => ?_) h
      revert hshorter h
      cases (Reckon.readLexeme nested inArguments _ c more).result with
      | token t stop rest =>
        intro hshorter h
        exact Reported.bind_agree (fun _ => rfl) (ih rest.length hshorter _ stop rest · rfl) h
      | dropped stop rest =>
        intro hshorter h
        exact ih rest.length hshorter before stop rest h rfl
      | last => exact fun _ _ => rfl

theorem readsAs_readNested (limit limit' levels more : Nat) :
    ReadsAs (· ≠ .nestingIgnored limit) (readNested limit levels)
      (readNested limit' (levels + more)) := by
  induction levels with
  | zero =>
    intro inArguments pos cs h
    simp [readNested, reportAt, Reported.AllCauses, Reported.report] at h
  | succ levels ih =>
    intro inArguments pos cs h
    rw [Nat.succ_add]
    exact ih.readRegion inArguments [] pos cs h

/-- A source text that is read without reaching the limit is read the same under every higher one. -/
theorem tokenize_of_le {limit limit' : Nat} (hle : limit ≤ limit') {source : String}
    (h : (tokenize limit source).AllCauses (· ≠ .nestingIgnored limit)) :
    tokenize limit' source = tokenize limit source := by
  obtain ⟨more, rfl⟩ := Nat.exists_eq_add_of_le hle
  have hreads := readsAs_readNested limit (limit + more) (limit + 1) more
  rw [Nat.succ_add] at hreads
  exact (hreads false 0 source.toList h).symm

/-! Reduction. -/

section Reduction

variable {scope : Scope} {limit levels : Nat} (limit' more : Nat)

/-- A loop that does not meet the limit is the same with more levels and another limit. -/
theorem drive_reduce_of_not_meetsLimit (fuel : Nat) {tokens : List Token}
    (h : ¬MeetsLimit scope limit levels tokens) :
    drive (reduce scope limit levels) fuel tokens =
      drive (reduce scope limit' (levels + more)) fuel tokens := by
  induction levels generalizing fuel tokens with
  | zero =>
    have hn : needsReduction tokens = false := Bool.eq_false_iff.mpr fun hn => h (.here hn)
    cases fuel with
    | zero => rfl
    | succ fuel => simp [drive, hn]
  | succ levels ih =>
    induction fuel generalizing tokens with
    | zero => rfl
    | succ fuel ihfuel =>
      cases hn : needsReduction tokens with
      | false => simp [drive, hn]
      | true =>
        have hstep : reduce scope limit (levels + 1) tokens =
            reduce scope limit' (levels + 1 + more) tokens := by
          rw [Nat.succ_add]
          refine stepWith_congr fun place inner hdelegates => ?_
          rw [settleWith_eq_drive, settleWith_eq_drive,
            ih _ fun hinner => h (.inside hn hdelegates hinner)]
        simp only [drive, hn, if_true]
        refine Attempt.bind_congr hstep fun step ha => ?_
        cases step with
        | stalled => rfl
        | progressed after => exact ihfuel fun hafter => h (.later hn ha hafter)

theorem evaluateTokens_of_not_meetsLimit {tokens : List Token}
    (h : ¬MeetsLimit scope limit limit (splitTarget tokens).2) :
    evaluateTokens limit scope tokens = evaluateTokens (limit + more) scope tokens := by
  have hdrive : driveRoot limit scope (splitTarget tokens).2 =
      driveRoot (limit + more) scope (splitTarget tokens).2 :=
    congrArg ExceptT.run (drive_reduce_of_not_meetsLimit (limit + more) more _ h)
  rw [evaluateTokens_eq, evaluateTokens_eq, hdrive]

end Reduction

namespace Formula

/-- A formula that is read and evaluated without reaching its limit is read and evaluated the same under
every higher one: tokens and diagnostics, value and variables. -/
theorem higher_limit {limit limit' : Nat} (hle : limit ≤ limit') (source : String) (scope : Scope)
    (hread : ∀ d ∈ (read limit source).diagnostics, d.cause ≠ .nestingIgnored limit)
    (hevaluate : ∀ d ∈ ((read limit source).evaluate scope).1.diagnostics,
      d.cause.failure? ≠ some (.nestingTooDeep limit)) :
    read limit' source = { read limit source with limit := limit' } ∧
      (read limit' source).evaluate scope = (read limit source).evaluate scope := by
  obtain ⟨more, rfl⟩ := Nat.exists_eq_add_of_le hle
  have htokens : tokenize (limit + more) source = tokenize limit source := by
    have hreads := readsAs_readNested limit (limit + more) (limit + 1) more
    rw [Nat.succ_add] at hreads
    refine (hreads false 0 source.toList fun d hd => hread d ?_).symm
    exact List.mem_append_left _ hd
  have hformula : read (limit + more) source =
      { read limit source with limit := limit + more } := by
    simp only [read, htokens]
  refine ⟨hformula, ?_⟩
  have hmeets : ¬(read limit source).MeetsLimit scope := not_meetsLimit hevaluate
  have hevaluated : evaluateTokens limit scope (read limit source).tokens =
      evaluateTokens (limit + more) scope (read limit source).tokens :=
    evaluateTokens_of_not_meetsLimit more hmeets
  have hread : (read limit source).limit = limit := rfl
  rw [hformula]
  simp only [evaluate, hread, hevaluated]

/-- A group at the limit whose only token needs no reduction. -/
theorem higher_limit_group :
    read 5 "(2) . name" = { read 1 "(2) . name" with limit := 5 } ∧
      (read 5 "(2) . name").evaluate ⟨.empty, .empty⟩ =
        (read 1 "(2) . name").evaluate ⟨.empty, .empty⟩ :=
  higher_limit (by decide) "(2) . name" ⟨.empty, .empty⟩ (by decide +kernel) (by decide +kernel)

end Formula

end Reckon
