import Reckon.Proofs.CanonicalInverse
import Reckon.Proofs.SourceReadable
import Reckon.Proofs.TokenTree

/-!
Conditionals of single tokens that reading gives back.

The reader finds the end of a branch in the text, before it knows any token. A false branch always ends
where it was written to end, but the colon of a qualified name ends a true branch that begins with it.
Nothing else about a conditional of single tokens is lost but what is lost of the tokens by themselves.
-/

namespace Reckon

/-- Whether a token can be spelled and neither is nor holds a conditional. -/
def Token.Unconditional (inArguments : Bool) (t : Token) : Prop :=
  t.Readable inArguments ∧ t.Every (fun _ u => isConditional u = false) inArguments

/-! What is given back is exact and within the limit. -/

/-- A reader that gives back only what is exact and fits into so many levels. -/
def Loses (levels : Nat) (nested : PieceReader) : Prop :=
  ∀ {inArguments : Bool} {ts : List Token}, AllReadable inArguments ts →
    AllEvery (fun _ u => isConditional u = false) inArguments ts →
      nested inArguments (sequencePieces ts) = lowerAll ts → AllExact ts ∧ sequenceLevels ts ≤ levels

section
variable {levels : Nat} {nested : PieceReader}

theorem Loses.token (hnested : Loses levels nested) {t : Token} {inArguments : Bool}
    (h : t.Unconditional inArguments) (hread : t.reread nested = t.lowered) :
    t.Exact ∧ t.levels ≤ levels := by
  obtain ⟨hreadable, hevery⟩ := h
  cases t with
  | undefined | operator _ | name _ => exact ⟨trivial, Nat.zero_le _⟩
  | number n =>
    simp only [Token.reread, Token.lowered] at hread
    split at hread
    · rename_i hfinite
      exact ⟨hfinite, Nat.zero_le _⟩
    · contradiction
  | text s =>
    simp only [Token.reread, Token.lowered, Token.text.injEq] at hread
    refine ⟨fun hnull => ?_, Nat.zero_le _⟩
    rw [← hread, String.toList_ofList, List.mem_filter] at hnull
    simp at hnull
  | call s arguments =>
    simp only [Token.Readable] at hreadable
    simp only [Token.Every] at hevery
    simp only [Token.reread, Token.lowered, Token.call.injEq] at hread
    simpa only [Token.Exact, Token.levels] using hnested hreadable.2 hevery.2 hread.2
  | group inner =>
    simp only [Token.Readable] at hreadable
    simp only [Token.Every] at hevery
    simp only [Token.reread, Token.lowered, Token.group.injEq] at hread
    simpa only [Token.Exact, Token.levels] using hnested hreadable hevery.2 hread
  | conditional _ _ =>
    simp only [Token.Every] at hevery
    exact Bool.noConfusion hevery.1

theorem Loses.region (hnested : Loses levels nested) {ts : List Token} {inArguments : Bool}
    (hreadable : AllReadable inArguments ts)
    (hevery : AllEvery (fun _ u => isConditional u = false) inArguments ts)
    (hread : rereadRegion nested inArguments [] (sequencePieces ts) = lowerAll ts) :
    AllExact ts ∧ sequenceLevels ts ≤ levels + 1 := by
  rw [rereadRegion_unconditional hreadable (fun t ht => (allEvery_iff.mp hevery t ht).self) (by simp),
    List.reverse_nil, List.nil_append, lowerAll_eq_map, List.map_inj_left] at hread
  have htoken (t : Token) (ht : t ∈ ts) : t.Exact ∧ t.levels ≤ levels :=
    hnested.token ⟨hreadable.readable t ht, allEvery_iff.mp hevery t ht⟩ (hread t ht)
  exact ⟨allExact_iff.mpr fun t ht => (htoken t ht).1,
    sequenceLevels_le_iff.mpr fun t ht => Nat.succ_le_succ (htoken t ht).2⟩

end

theorem loses (levels : Nat) : Loses levels (reread levels) := by
  induction levels with
  | zero =>
    intro inArguments ts _ _ hread
    cases ts with
    | nil => exact ⟨trivial, Nat.le_refl _⟩
    | cons t rest =>
      rw [reread, lowerAll] at hread
      contradiction
  | succ levels ih =>
    intro inArguments ts hreadable hevery hread
    exact ih.region hreadable hevery hread

theorem isQualified_lowered {inArguments : Bool} {t : Token} (h : t.Readable inArguments) :
    t.lowered.IsQualified ↔ t.IsQualified := by
  have hfold {s : String} (hs : IsReference s) :
      ':' ∈ (foldName s).toList ↔ ':' ∈ s.toList := by
    refine ⟨fun hcolon => Decidable.byContradiction fun hno =>
      not_qualified_foldName hs.1 hno hcolon, fun hcolon => ?_⟩
    rw [toList_foldName hs.1]
    exact List.mem_map.mpr ⟨':', hcolon, rfl⟩
  cases t with
  | name s =>
    simp only [Token.Readable] at h
    exact hfold h
  | call s arguments =>
    simp only [Token.Readable] at h
    exact hfold h.1
  | undefined | number _ | text _ | operator _ | group _ | conditional _ _ => rfl

section
variable {limit : Nat} {c t f : Token}

theorem allReadable_conditional (hc : c.Readable false) (ht : t.Readable false)
    (hf : f.Readable false) (hqualified : ¬t.IsQualified) :
    AllReadable false [c, .conditional [t] [f]] := by
  simp only [AllReadable, Token.Readable, SoleQualified]
  refine ⟨hc, ?_, ⟨⟨ht, by simp⟩, hqualified, ⟨hf, by simp⟩⟩, by simp⟩
  intro next hnext
  rw [← Option.some.inj hnext]
  cases c <;> trivial

/-- What is read, as long as the true branch does not begin with a qualified name. -/
theorem tokenize_describe_branches (hc : c.Unconditional false) (ht : t.Unconditional false)
    (hf : f.Unconditional false) (hqualified : ¬t.IsQualified) :
    (tokenize limit (describe [c, .conditional [t] [f]])).result =
      [c.reread (reread limit), .conditional (reread limit false (sequencePieces [t]))
        (reread limit false (sequencePieces [f]))] := by
  have hpieces {u : Token} (hu : u.Unconditional false) : u.pieces = [.token u] :=
    pieces_of_not_conditional hu.2.self
  have hsingle {u : Token} (hu : u.Unconditional false) : sequencePieces [u] = [.token u] := by
    rw [sequencePieces_cons, hpieces hu]
    rfl
  have hcond : sequencePieces [.conditional [t] [f]] =
      [.condition, .token t, .otherwise, .token f] := by
    rw [sequencePieces_cons, Token.pieces, branchPieces, branchPieces, hpieces ht, hpieces hf]
    rfl
  have hpush : push [c.reread (reread limit)] (.conditional (reread limit false [.token t])
      (reread limit false [.token f])) = [.conditional (reread limit false [.token t])
        (reread limit false [.token f]), c.reread (reread limit)] := by
    refine push_of_precedes fun p _ => ?_
    cases p <;> trivial
  rw [tokenize_canonical limit (allReadable_conditional hc.1 ht.1 hf.1 hqualified), reread,
    sequencePieces_cons, rereadRegion_token hc.1 hc.2.self (by simp), hcond, rereadRegion, hsingle ht,
    hsingle hf]
  simp [Piece.isOtherwise, rereadBranch, afterComma, hpush, rereadRegion]

theorem not_soleQualified_of_tokenize {source : String} {whenTrue whenFalse : List Token}
    (h : (tokenize limit source).result = [c, .conditional whenTrue whenFalse]) :
    ¬SoleQualified whenTrue := by
  have hread := allReadable_tokenize limit source
  rw [h] at hread
  simp only [AllReadable, Token.Readable] at hread
  exact hread.2.2.1.2.1

theorem reread_eq_lowered_iff (ht : t.Unconditional false) :
    t.reread (reread limit) = t.lowered ↔ t.Exact ∧ t.levels ≤ limit :=
  ⟨Loses.token (loses limit) ht, fun h => Inverts.token (inverts limit) ht.1 h.1 h.2⟩

theorem reread_singleton_iff (ht : t.Unconditional false) :
    reread limit false (sequencePieces [t]) = [t.lowered] ↔ t.Exact ∧ t.levels + 1 ≤ limit := by
  have hreadable : AllReadable false [t] := by simp [AllReadable, ht.1]
  have hevery : AllEvery (fun _ u => isConditional u = false) false [t] :=
    allEvery_iff.mpr fun u hu => List.mem_singleton.mp hu ▸ ht.2
  have hexact : AllExact [t] ↔ t.Exact := by simp [AllExact]
  have hlevels : sequenceLevels [t] ≤ limit ↔ t.levels + 1 ≤ limit := by simp [sequenceLevels]
  rw [← hexact, ← hlevels]
  exact ⟨loses limit hreadable hevery, fun h => inverts limit hreadable h.1 h.2⟩

/-- A conditional whose condition and branches are single tokens without conditionals in them is read
back from its canonical text, with its names in lower case, exactly if no qualified name begins the true
branch, and the tokens are exact and within the limit of nesting. -/
theorem tokenize_describe_conditional (hc : c.Unconditional false) (ht : t.Unconditional false)
    (hf : f.Unconditional false) :
    (tokenize limit (describe [c, .conditional [t] [f]])).result =
        [c.lowered, .conditional [t.lowered] [f.lowered]] ↔
      ¬t.IsQualified ∧ AllExact [c, t, f] ∧
        sequenceLevels [c, .conditional [t] [f]] ≤ limit + 1 := by
  by_cases hqualified : t.IsQualified
  · refine iff_of_false (fun h => ?_) fun h => h.1 hqualified
    exact not_soleQualified_of_tokenize h ((isQualified_lowered ht.1).mpr hqualified)
  · have hlevels : sequenceLevels [c, .conditional [t] [f]] ≤ limit + 1 ↔
        c.levels ≤ limit ∧ t.levels + 1 ≤ limit ∧ f.levels + 1 ≤ limit := by
      simp only [sequenceLevels, Token.levels]
      omega
    rw [tokenize_describe_branches hc ht hf hqualified, hlevels]
    simp only [List.cons.injEq, Token.conditional.injEq, and_true, reread_eq_lowered_iff hc,
      reread_singleton_iff ht, reread_singleton_iff hf, AllExact, hqualified, not_false_iff, true_and]
    tauto

theorem tokenize_describe_conditional_call :
    (tokenize 2 (describe [.name "Set::B", .conditional
      [.call "Max" [.name "Set::B", .operator .comma, .operator .sub, .number 2.5]]
      [.text "it's : so"]])).result =
      [.name "set::b", .conditional
        [.call "max" [.name "set::b", .operator .comma, .operator .sub, .number 2.5]]
        [.text "it's : so"]] := by
  have hmax : IsReference "Max" := ⟨.simple rfl (List.all_eq_true.mp rfl), by decide⟩
  have hset : IsReference "Set::B" :=
    ⟨@IsName.qualified 'S' ['e', 't'] 'B' [] rfl (List.all_eq_true.mp rfl) rfl (List.all_eq_true.mp rfl),
      by decide⟩
  have hnumber : Unsigned 2.5 := by
    unfold Unsigned
    decide +kernel
  have hfinite : (2.5 : Float).isFinite := by decide +kernel
  refine ((tokenize_describe_conditional ?_ ?_ ?_).mpr ?_).trans ?_
  · simp [Token.Unconditional, Token.Readable, Token.Every, isConditional, hset]
  · simp [Token.Unconditional, Token.Readable, AllReadable, Token.Precedes, Operator.Precedes,
      Operator.isSign, Token.Every, AllEvery, isConditional, hmax, hset, hnumber]
  · simp [Token.Unconditional, Token.Readable, Token.Every, isConditional]
  · simp [Token.IsQualified, AllExact, Token.Exact, sequenceLevels, Token.levels, hfinite]
  · simp only [lowerAll, Token.lowered]
    decide +kernel

/-- A qualified name is cut off at its colon. -/
theorem tokenize_describe_conditional_qualified :
    (tokenize 128 (describe
      [.number 1, .conditional [.name "a::b"] [.number 2]])).result ≠
        [.number 1, .conditional [.name "a::b"] [.number 2]] := by
  decide +kernel

end

end Reckon
