import Reckon.Proofs.StrayPieces

/-!
When canonical text is stable.

The canonical text of what a source is read as is read and written again without a change exactly if no
text holds a null character, no comma stands right after a conditional, no branch is a conditional by
itself, and the limit of nesting leaves room for the parentheses that branches are written with. The only
exceptions are conditionals as branches whose own parts are the zeros that a cut branch is filled with, at
the end of arguments, where the colons left over end the arguments anyway.
-/

namespace Reckon

/-- Whether arguments end with a conditional whose cut branches are filled with what was there. The levels
are those left inside the conditional. -/
def EndsArguments (levels : Nat) (whenTrue whenFalse rest : List Token) : Prop :=
  (SoleConditional whenTrue ∧ whenFalse = [.number 0.0] ∧ rest = []) ∨
  (¬SoleConditional whenTrue ∧ 0 < levels ∧
    whenFalse = [.conditional [.number 0.0] [.number 0.0]] ∧ rest = [.number 0.0])

mutual

/-- Whether the text of a token other than a conditional stays the same, with so many levels left
inside. -/
def Token.Stable : Nat → Token → Prop
  | _, .text s => '\x00' ∉ s.toList
  | levels, .call _ arguments => AllStable levels true false arguments
  | levels, .group inner => AllStable levels false false inner
  | _, _ => True
termination_by _ t => (sizeOf t, 0)

/-- Whether the text of a branch stays the same. Unless it is one token it needs a level for its own
parentheses, and without any level it is read as empty. -/
def BranchStable : Nat → List Token → Prop
  | 0, ts => ts = [] ∨ ts = [.group []]
  | levels + 1, [t] => isConditional t = false ∧ t.Stable levels
  | levels + 1, ts => AllStable levels false false ts
termination_by _ ts => (sizeOf ts, 1)

/-- Whether the text of a true branch stays the same. A conditional by itself loses its false branch. -/
def TrueBranchStable : Nat → List Token → Prop
  | 0, [.conditional _ _] => False
  | levels + 1, [.conditional whenTrue whenFalse] =>
    TrueBranchStable levels whenTrue ∧ whenFalse = [.number 0.0]
  | levels, ts => BranchStable levels ts
termination_by _ ts => (sizeOf ts, 2)

/-- Whether the text of a sequence stays the same, with so many levels left, as arguments or not, after a
conditional or not. -/
def AllStable : Nat → Bool → Bool → List Token → Prop
  | _, _, _, [] => True
  | 0, _, _, _ :: _ => False
  | levels + 1, inArguments, _, .conditional whenTrue whenFalse :: rest =>
    TrueBranchStable levels whenTrue ∧
      ((¬SoleConditional whenTrue ∧ BranchStable levels whenFalse ∧
          AllStable (levels + 1) inArguments true rest) ∨
        (inArguments = true ∧ EndsArguments levels whenTrue whenFalse rest))
  | levels + 1, inArguments, afterConditional, t :: rest =>
    (afterConditional = true → t.isOperator .comma = false) ∧ t.Stable levels ∧
      AllStable (levels + 1) inArguments false rest
termination_by _ _ _ ts => (sizeOf ts, 0)

end

/-- Reading with so many levels keeps the text of stable sequences, and only of these. -/
def Settles (levels : Nat) : Prop :=
  ∀ {inArguments : Bool} {ts : List Token}, AllReadable inArguments ts →
    (sequenceTexts (reread levels inArguments (sequencePieces ts)) = sequenceTexts ts ↔
      AllStable levels inArguments false ts)

theorem length_flatMap_filter_le (cs : List Char) :
    ((cs.filter (· ≠ '\x00')).flatMap quotedChar).length ≤ (cs.flatMap quotedChar).length := by
  induction cs with
  | nil => exact Nat.le_refl _
  | cons c cs ih =>
    by_cases hc : c = '\x00'
    · simp only [List.filter_cons, ne_eq, hc, not_true, decide_false, Bool.false_eq_true, if_false,
        List.flatMap_cons, List.length_append] at ih ⊢
      omega
    · simp only [List.filter_cons, ne_eq, hc, not_false_eq_true, decide_true, if_true,
        List.flatMap_cons, List.length_append] at ih ⊢
      omega

/-- Leaving out null characters changes the text of a literal. -/
theorem quotedChars_filter_inj {cs : List Char}
    (h : quotedChars (cs.filter (· ≠ '\x00')) = quotedChars cs) : '\x00' ∉ cs := by
  have hbody : (cs.filter (· ≠ '\x00')).flatMap quotedChar = cs.flatMap quotedChar := by
    simpa [quotedChars] using h
  clear h
  induction cs with
  | nil => simp
  | cons c cs ih =>
    by_cases hc : c = '\x00'
    · have hlength := congrArg List.length hbody
      have hle := length_flatMap_filter_le cs
      subst hc
      have hnull : (quotedChar '\x00').length = 4 := rfl
      simp only [List.filter_cons, ne_eq, not_true, decide_false, Bool.false_eq_true, if_false,
        List.flatMap_cons, List.length_append, hnull] at hlength hle
      omega
    · simp only [List.filter_cons, ne_eq, hc, not_false_eq_true, decide_true, if_true,
        List.flatMap_cons, List.append_cancel_left_eq] at hbody
      have := ih hbody
      simp only [List.mem_cons, not_or]
      exact ⟨fun h => hc h.symm, this⟩

section
variable {levels : Nat} {inArguments : Bool}

theorem Settles.token (h : Settles levels) {t : Token} (ht : t.Readable inArguments)
    (hcond : isConditional t = false) :
    tokenChars (t.reread (reread levels)) = tokenChars t ↔ t.Stable levels := by
  cases t with
  | undefined | operator _ => simp only [Token.reread, Token.Stable]
  | number x =>
    simp only [Token.Readable] at ht
    simp only [Token.reread, Token.Stable, iff_true]
    by_cases hf : x.isFinite
    · rw [if_pos hf]
    · rw [if_neg hf, tokenChars, tokenChars, numberText_infinite ht hf]
      rfl
  | text s =>
    simp only [Token.reread, Token.Stable, tokenChars, String.toList_ofList]
    refine ⟨quotedChars_filter_inj, fun hs => ?_⟩
    have hall : ∀ c ∈ s.toList, decide (c ≠ '\x00') = true := by
      intro c hc
      exact decide_eq_true fun hnull => hs (hnull ▸ hc)
    rw [List.filter_eq_self.mpr hall]
  | name s =>
    simp only [Token.Readable] at ht
    simp only [Token.reread, Token.Stable, tokenChars, foldName_foldName ht.1]
  | call s arguments =>
    simp only [Token.Readable] at ht
    simp only [Token.reread, Token.Stable, tokenChars, foldName_foldName ht.1.1, List.append_assoc,
      List.append_cancel_left_eq, List.cons_append, List.cons.injEq, true_and,
      List.append_cancel_right_eq]
    rw [sequenceChars_inj (allReadable_reread levels ht.2) ht.2]
    exact h ht.2
  | group inner =>
    simp only [Token.Readable] at ht
    simp only [Token.reread, Token.Stable, tokenChars, List.cons_append, List.cons.injEq, true_and,
      List.append_cancel_right_eq]
    rw [sequenceChars_inj (allReadable_reread levels ht) ht]
    exact h ht
  | conditional _ _ => contradiction

theorem isConditional_reread (t : Token) (nested : PieceReader) :
    isConditional (t.reread nested) = isConditional t := by
  cases t with
  | number x =>
    simp only [Token.reread]
    split <;> rfl
  | _ => rfl

theorem reread_token {t : Token} (ht : t.Readable inArguments) (hcond : isConditional t = false) :
    reread (levels + 1) inArguments t.pieces = [t.reread (reread levels)] := by
  have hread := @rereadRegion_token inArguments t ht hcond [] (by simp) (reread levels) []
  rw [List.append_nil] at hread
  rw [reread, hread, rereadRegion]
  rfl

theorem exists_branchToken {ts : List Token} (h : AllReadable false ts) (hsole : ¬SoleConditional ts) :
    ∃ t, t.Readable false ∧ isConditional t = false ∧ branchPieces ts = t.pieces ∧
      (BranchStable 0 ts ↔ t = .group []) ∧
      ∀ levels, BranchStable (levels + 1) ts ↔ t.Stable levels := by
  rcases length_of_not_sole hsole with ⟨t, rfl, hcond⟩ | hlen
  · simp only [AllReadable] at h
    exact ⟨t, h.1, hcond, rfl, by simp [BranchStable], by simp [BranchStable, hcond]⟩
  · refine ⟨.group ts, by simpa only [Token.Readable] using h, rfl, branchPieces_of_length_ne hlen, ?_,
      fun levels => ?_⟩
    · have : ts ≠ [.group []] := fun heq => hlen (by rw [heq]; rfl)
      simp [BranchStable, this]
    · rw [BranchStable, Token.Stable]
      rintro t rfl
      exact hlen rfl

theorem branch_iff (h : ∀ m < levels, Settles m) {ts : List Token} (hts : AllReadable false ts)
    (hsole : ¬SoleConditional ts) (xs ys : List (List Char)) :
    branchTexts (reread levels false (branchPieces ts)) ++ xs = branchTexts ts ++ ys ↔
      BranchStable levels ts ∧ xs = ys := by
  obtain ⟨t, ht, hcond, hpieces, hzero, hsucc⟩ := exists_branchToken hts hsole
  have htexts : branchTexts ts = [tokenChars t] := by
    rw [branchTexts, hpieces]
    exact branchTexts_token hcond
  rw [htexts, hpieces]
  cases levels with
  | zero =>
    have hempty : branchTexts (reread 0 false t.pieces) = [tokenChars (.group [])] := rfl
    rw [hempty, hzero, List.singleton_append, List.singleton_append, List.cons.injEq]
    refine and_congr_left fun _ => ⟨fun h => ?_, fun h => by rw [h]⟩
    exact eq_of_tokenChars ht (.inr (.inr rfl)) h.symm
  | succ levels =>
    rw [reread_token ht hcond, branchTexts_token (by rw [isConditional_reread, hcond]), hsucc,
      List.singleton_append, List.singleton_append, List.cons.injEq]
    exact and_congr_left fun _ => Settles.token (h levels (Nat.lt_succ_self levels)) ht hcond

theorem branchTexts_zero : branchTexts [.number 0.0] = [['0']] := by
  rw [branchTexts_token rfl, zeroChars]

theorem zero_iff {ts : List Token} (hts : AllReadable false ts) (xs ys : List (List Char)) :
    branchTexts [.number 0.0] ++ xs = branchTexts ts ++ ys ↔ ts = [.number 0.0] ∧ xs = ys := by
  by_cases hsole : SoleConditional ts
  · obtain ⟨whenTrue, whenFalse, rfl⟩ := hsole
    rw [branchTexts_zero, branchTexts_conditional]
    simp
  · rcases length_of_not_sole hsole with ⟨t, rfl, hcond⟩ | hlen
    · simp only [AllReadable] at hts
      rw [branchTexts_token rfl, branchTexts_token hcond, List.singleton_append,
        List.singleton_append, List.cons.injEq, List.cons.injEq]
      refine and_congr_left fun _ => ⟨fun h => ?_, fun h => by rw [h.1]⟩
      exact ⟨eq_of_tokenChars hts.1 (.inr (.inl rfl)) h.symm, rfl⟩
    · have hgroup : branchTexts ts = [tokenChars (.group ts)] := by
        rw [branchTexts, branchPieces_of_length_ne hlen]
        rfl
      have hne : ts ≠ [.number 0.0] := fun heq => hlen (by rw [heq]; rfl)
      rw [branchTexts_zero, hgroup, tokenChars]
      simp [hne]

theorem rereadRegion_cut {ps : List Piece} (h : ∀ p ∈ ps, p.Inner) (nested : PieceReader) :
    rereadRegion nested inArguments [] (.condition :: ps) =
      [.conditional (rereadBranch nested ps) [.number 0.0]] := by
  have hall : ∀ p ∈ ps, (!p.isOtherwise) = true := fun p hp => (h p hp).not_isOtherwise
  have htake : ps.takeWhile (!·.isOtherwise) = ps := by
    have := @List.takeWhile_append_of_pos _ (!·.isOtherwise) ps [] hall
    rwa [List.append_nil, List.takeWhile_nil, List.append_nil] at this
  have hdrop : ps.dropWhile (!·.isOtherwise) = [] := by
    have := @List.dropWhile_append_of_pos _ (!·.isOtherwise) ps [] hall
    rwa [List.append_nil, List.dropWhile_nil] at this
  rw [rereadRegion, htake, hdrop, List.tail_nil, List.take_nil, List.tail_nil, afterComma, rereadRegion]
  rfl

theorem rereadBranch_openPieces (ts : List Token) (nested : PieceReader) :
    rereadBranch nested (openPieces ts) = nested false (openPieces ts) := by
  have hne : openPieces ts ≠ [] := by
    induction ts using openPieces.induct with
    | case1 whenTrue whenFalse _ => simp [openPieces]
    | case2 ts hts =>
      rw [openPieces.eq_2 ts hts]
      by_cases hlen : ts.length = 1
      · obtain ⟨t, rfl⟩ := List.length_eq_one_iff.mp hlen
        cases t <;> simp [branchPieces, Token.pieces]
      · simp [branchPieces_of_length_ne hlen]
  cases hopen : openPieces ts with
  | nil => exact absurd hopen hne
  | cons p ps => rfl

theorem trueBranch_iff {ts : List Token} (h : ∀ m < levels, Settles m) (hts : AllReadable false ts)
    (hqualified : ¬SoleQualified ts) (xs ys : List (List Char)) :
    branchTexts (reread levels false (openPieces ts)) ++ xs = branchTexts ts ++ ys ↔
      TrueBranchStable levels ts ∧ xs = ys := by
  induction ts using openPieces.induct generalizing levels xs ys with
  | case1 whenTrue whenFalse ih =>
    have hinner := inner_of_mem_openPieces hts hqualified
    rw [openPieces] at hinner ⊢
    simp only [AllReadable, Token.Readable] at hts
    obtain ⟨htrue, hqualifiedTrue, hfalse⟩ := hts.1
    rw [branchTexts_conditional]
    cases levels with
    | zero =>
      rw [TrueBranchStable]
      have hempty : branchTexts (reread 0 false (.condition :: openPieces whenTrue)) =
          [['(', ' ', ' ', ')']] := rfl
      rw [hempty]
      simp
    | succ levels =>
      rw [reread, rereadRegion_cut (fun p hp => hinner p (List.mem_cons_of_mem _ hp)),
        rereadBranch_openPieces, branchTexts_conditional, TrueBranchStable]
      simp only [List.cons_append, List.append_assoc, List.cons.injEq, true_and]
      rw [ih (fun m hm => h m (Nat.lt_succ_of_lt hm)) htrue hqualifiedTrue]
      simp only [List.cons.injEq, true_and, and_assoc]
      rw [zero_iff hfalse]
  | case2 ts hts' =>
    have hsole : ¬SoleConditional ts := by
      rintro ⟨a, b, heq⟩
      exact hts' a b heq
    rw [openPieces.eq_2 ts hts', branch_iff h hts hsole, TrueBranchStable]
    · exact fun a b _ heq => hts' a b heq
    · exact fun _ a b _ heq => hts' a b heq

/-- What is left over of a stable true branch. -/
theorem closingPieces_of_stable {ts : List Token} (h : TrueBranchStable levels ts)
    (hsole : SoleConditional ts) :
    0 < levels ∧ ∃ count, closingPieces ts = zeroPieces (count + 1) := by
  induction ts using openPieces.induct generalizing levels with
  | case1 whenTrue whenFalse ih =>
    cases levels with
    | zero => simp only [TrueBranchStable] at h
    | succ levels =>
      rw [TrueBranchStable] at h
      obtain ⟨htrue, rfl⟩ := h
      refine ⟨Nat.succ_pos levels, ?_⟩
      have hzero : branchPieces [.number 0.0] = [.token (.number 0.0)] := rfl
      rw [closingPieces, hzero]
      by_cases hinner : SoleConditional whenTrue
      · obtain ⟨-, count, hcount⟩ := ih htrue hinner
        exact ⟨count + 1, by rw [hcount, ← zeroPieces_succ]⟩
      · exact ⟨0, by rw [closingPieces_of_not_sole hinner]; rfl⟩
  | case2 ts hts =>
    obtain ⟨a, b, heq⟩ := hsole
    exact (hts a b heq).elim

theorem rereadRegion_conditional {whenTrue whenFalse : List Token}
    (h : (Token.conditional whenTrue whenFalse).Readable inArguments) (nested : PieceReader)
    (before : List Token) (ps after : List Piece)
    (hafter : closingPieces whenTrue ++ .otherwise :: (branchPieces whenFalse ++ ps) =
      .otherwise :: after) :
    rereadRegion nested inArguments before ((Token.conditional whenTrue whenFalse).pieces ++ ps) =
      rereadRegion nested inArguments
        (.conditional (nested false (openPieces whenTrue)) (rereadBranch nested (after.take 1)) :: before)
        (afterComma after.tail) := by
  simp only [Token.Readable] at h
  obtain ⟨htrue, hqualified, -⟩ := h
  have hinner := inner_of_mem_openPieces htrue hqualified
  obtain ⟨htake, hdrop⟩ := span_openPieces hinner (branchPieces whenFalse ++ ps)
  have hpush (t : Token) (ht : isConditional t) : push before t = t :: before := by
    refine push_of_precedes fun p _ => ?_
    cases t with
    | conditional _ _ => cases p <;> trivial
    | _ => contradiction
  rw [Token.pieces, List.cons_append, List.append_assoc, List.cons_append, rereadRegion, htake, hdrop,
    hafter, rereadBranch_openPieces, List.tail_cons, hpush _ rfl]

theorem conditional_iff (h : ∀ m < levels, Settles m) {whenTrue whenFalse rest : List Token}
    (hreadable : (Token.conditional whenTrue whenFalse).Readable inArguments)
    (falseRead restRead : List Token) :
    sequenceTexts (.conditional (reread levels false (openPieces whenTrue)) falseRead :: restRead) =
        sequenceTexts (.conditional whenTrue whenFalse :: rest) ↔
      TrueBranchStable levels whenTrue ∧
        branchTexts falseRead ++ sequenceTexts restRead =
          branchTexts whenFalse ++ sequenceTexts rest := by
  simp only [Token.Readable] at hreadable
  obtain ⟨htrue, hqualified, -⟩ := hreadable
  rw [sequenceTexts_cons, sequenceTexts_cons, branchTexts_conditional, branchTexts_conditional]
  simp only [List.cons_append, List.append_assoc, List.cons.injEq, true_and]
  rw [trueBranch_iff h htrue hqualified]
  simp only [List.cons.injEq, true_and]

theorem afterComma_of_not_comma {p : Piece} (h : p.isComma = false) (ps : List Piece) :
    afterComma (p :: ps) = p :: ps := by
  rw [afterComma, h]
  rfl

theorem not_branchStable_of_sole {ts : List Token} (h : SoleConditional ts) :
    ¬BranchStable levels ts := by
  obtain ⟨whenTrue, whenFalse, rfl⟩ := h
  cases levels with
  | zero => simp [BranchStable]
  | succ levels => simp [BranchStable, isConditional]

/-- Reading a sequence after some tokens leaves these, and keeps the text of the sequence exactly if it is
stable. After a conditional a comma is already lost, and no other comma comes in its place. -/
def Continues (levels : Nat) (inArguments afterConditional : Bool) (before ts : List Token) : Prop :=
  ∃ read, rereadRegion (reread levels) inArguments before
      (if afterConditional then afterComma (sequencePieces ts) else sequencePieces ts) =
        before.reverse ++ read ∧
    ((sequenceTexts read).head? = some [','] → (sequenceTexts ts).head? = some [',']) ∧
    (sequenceTexts read = sequenceTexts ts ↔
      AllStable (levels + 1) inArguments afterConditional ts)

theorem resume_conditional (afterConditional : Bool) (whenTrue whenFalse rest : List Token) :
    (if afterConditional then afterComma (sequencePieces (.conditional whenTrue whenFalse :: rest))
      else sequencePieces (.conditional whenTrue whenFalse :: rest)) =
        (Token.conditional whenTrue whenFalse).pieces ++ sequencePieces rest := by
  cases afterConditional <;> rfl

theorem head_conditional (whenTrue whenFalse ts : List Token) {us : List Token}
    (h : (sequenceTexts (.conditional whenTrue whenFalse :: ts)).head? = some [',']) :
    (sequenceTexts us).head? = some [','] :=
  absurd (Option.some.inj h) (by decide)

/-- A false branch that is a conditional by itself is cut at its first blank. -/
theorem continues_cutFalse (h : ∀ m < levels, Settles m) {whenTrue whenFalse rest : List Token}
    (hreadable : (Token.conditional whenTrue whenFalse).Readable inArguments)
    (hrest : AllReadable inArguments rest) (hsole : ¬SoleConditional whenTrue)
    (hcut : SoleConditional whenFalse) (afterConditional : Bool) (before : List Token) :
    Continues levels inArguments afterConditional before (.conditional whenTrue whenFalse :: rest) := by
  have hunstable : ¬BranchStable levels whenFalse := not_branchStable_of_sole hcut
  obtain ⟨innerTrue, innerFalse, rfl⟩ := hcut
  have hinner := hreadable
  simp only [Token.Readable, AllReadable] at hinner
  obtain ⟨htrue, -, hfalse⟩ := hinner.2.2.1
  obtain ⟨p, more, hp, hcomma, -⟩ := exists_branchPieces htrue
  have hread := rereadRegion_conditional hreadable (reread levels) before (sequencePieces rest)
    (.condition :: (branchPieces innerTrue ++ .otherwise :: (branchPieces innerFalse ++ sequencePieces rest)))
    (by rw [closingPieces_of_not_sole hsole]; simp [branchPieces, Token.pieces])
  rw [List.tail_cons, hp, List.cons_append, afterComma_of_not_comma hcomma, ← List.cons_append, ← hp,
    ← List.nil_append (Token.conditional _ _ :: before), rereadRegion_append _ _ rfl, List.reverse_cons,
    List.append_assoc] at hread
  rw [← resume_conditional afterConditional] at hread
  refine ⟨_, hread, head_conditional _ _ _, ?_⟩
  rw [List.singleton_append, conditional_iff h hreadable, AllStable]
  refine and_congr_right fun _ => ?_
  have hbranch : rereadBranch (reread levels) (List.take 1 (.condition ::
      (branchPieces innerTrue ++ .otherwise :: (branchPieces innerFalse ++ sequencePieces rest)))) =
        reread levels false [.condition] := rfl
  rw [hbranch, branchTexts_conditional, EndsArguments]
  simp only [hsole, hunstable, false_and, and_false, false_or, not_false_eq_true, true_and]
  cases levels with
  | zero =>
    have hempty : branchTexts (reread 0 false [.condition]) = [['(', ' ', ' ', ')']] := rfl
    rw [hempty]
    simp
  | succ levels =>
    have hcut : reread (levels + 1) false [.condition] =
        [.conditional [.number 0.0] [.number 0.0]] := by
      rw [reread, rereadRegion_cut (by simp)]
      rfl
    rw [hcut, branchTexts_conditional]
    simp only [List.cons_append, List.append_assoc, List.cons.injEq, true_and]
    rw [zero_iff htrue, List.cons.injEq, zero_iff hfalse]
    -- The two zeros that are left of the inner conditional are read after the cut.
    have hstray := sequenceTexts_stray_iff (reread (levels + 1)) (.inr rfl) hrest 0
    constructor
    · rintro ⟨rfl, -, rfl, htexts⟩
      obtain ⟨hin, hrest⟩ := hstray.mp htexts
      exact ⟨hin, Nat.succ_pos levels, ⟨rfl, trivial⟩, hrest⟩
    · rintro ⟨hin, -, ⟨hbranches, -⟩, hrest⟩
      injection hbranches with htrue hfalse
      subst htrue hfalse
      exact ⟨rfl, rfl, rfl, hstray.mpr ⟨hin, hrest⟩⟩

/-- A true branch that is a conditional by itself is cut at its first colon. -/
theorem continues_cutTrue (h : ∀ m < levels, Settles m) {whenTrue whenFalse rest : List Token}
    (hreadable : (Token.conditional whenTrue whenFalse).Readable inArguments)
    (hrest : AllReadable inArguments rest) (hcut : SoleConditional whenTrue)
    (afterConditional : Bool) (before : List Token) :
    Continues levels inArguments afterConditional before (.conditional whenTrue whenFalse :: rest) := by
  obtain ⟨after, hafter⟩ : ∃ after, closingPieces whenTrue ++
      .otherwise :: (branchPieces whenFalse ++ sequencePieces rest) = .otherwise :: after := by
    rcases closingPieces_cases whenTrue with hc | ⟨ps, hc⟩
    · exact ⟨branchPieces whenFalse ++ sequencePieces rest, by rw [hc]; rfl⟩
    · exact ⟨ps ++ .otherwise :: (branchPieces whenFalse ++ sequencePieces rest), by rw [hc]; rfl⟩
  have hread := rereadRegion_conditional hreadable (reread levels) before (sequencePieces rest) after
    hafter
  rw [← List.nil_append (Token.conditional _ _ :: before), rereadRegion_append _ _ rfl,
    List.reverse_cons, List.append_assoc] at hread
  rw [← resume_conditional afterConditional] at hread
  refine ⟨_, hread, head_conditional _ _ _, ?_⟩
  rw [List.singleton_append, conditional_iff h hreadable, AllStable]
  refine and_congr_right fun hstable => ?_
  obtain ⟨hlevels, count, hcount⟩ := closingPieces_of_stable hstable hcut
  rw [hcount, zeroPieces, List.cons_append, List.cons_append, List.cons.injEq] at hafter
  obtain ⟨levels, rfl⟩ : ∃ l, levels = l + 1 := Nat.exists_eq_add_one.mpr hlevels
  have hzero : rereadBranch (reread (levels + 1)) (after.take 1) = [.number 0.0] := by
    have := @reread_token levels false _ (readable_zero false) rfl
    rw [reread_zero] at this
    rw [← hafter.2]
    exact this
  have hleft : afterComma after.tail = zeroPieces count ++
      .otherwise :: (branchPieces whenFalse ++ sequencePieces rest) := by
    rw [← hafter.2, List.tail_cons]
    cases count <;> rfl
  simp only [Token.Readable] at hreadable
  rw [hzero, hleft, zero_iff hreadable.2.2, EndsArguments]
  simp only [hcut, true_and, not_true, false_and, or_false, false_or]
  have hstray := sequenceTexts_stray_iff (reread (levels + 1)) (.inl rfl) hrest count
  rw [zeroPieces_succ, List.append_assoc] at hstray
  constructor
  · rintro ⟨rfl, htexts⟩
    obtain ⟨hin, hrest⟩ := hstray.mp htexts
    exact ⟨hin, rfl, hrest⟩
  · rintro ⟨hin, rfl, hrest⟩
    exact ⟨rfl, hstray.mpr ⟨hin, hrest⟩⟩

theorem isComma_of_texts {t : Token} (ht : t.Readable inArguments) {ts : List Token}
    (h : (sequenceTexts (t :: ts)).head? = some [',']) : t.isOperator .comma = true := by
  cases hcond : isConditional t with
  | true =>
    cases t with
    | conditional whenTrue whenFalse => exact absurd (Option.some.inj h) (by decide)
    | _ => contradiction
  | false =>
    rw [sequenceTexts_cons, branchTexts_token hcond] at h
    have hchars : tokenChars t = [','] := Option.some.inj h
    cases hcomma : t.isOperator .comma with
    | true => rfl
    | false =>
      have hclosed := closedToken_tokenChars ht hcond hcomma
      rw [hchars] at hclosed
      exact absurd rfl hclosed.ne_comma

theorem isOperator_reread (t : Token) (op : Operator) (nested : PieceReader) :
    (t.reread nested).isOperator op = t.isOperator op := by
  cases t with
  | number x =>
    simp only [Token.reread]
    split <;> rfl
  | _ => rfl

theorem readable_reread {t : Token} (ht : t.Readable inArguments) (hcond : isConditional t = false)
    (levels : Nat) : (t.reread (reread levels)).Readable inArguments := by
  have hall : AllReadable inArguments [t] := by
    simp only [AllReadable]
    exact ⟨ht, by simp, trivial⟩
  have hread := allReadable_reread (levels + 1) hall
  have hpieces : sequencePieces [t] = t.pieces := List.append_nil _
  rw [hpieces, reread_token ht hcond] at hread
  simp only [AllReadable] at hread
  exact hread.1

/-- A conditional whose branches are read as they are. -/
theorem continues_whole (h : ∀ m < levels, Settles m) {whenTrue whenFalse rest : List Token}
    (hreadable : (Token.conditional whenTrue whenFalse).Readable inArguments)
    (htrue : ¬SoleConditional whenTrue) (hfalse : ¬SoleConditional whenFalse)
    (afterConditional : Bool) {before : List Token}
    (hrest : ∀ a b, Continues levels inArguments true (.conditional a b :: before) rest) :
    Continues levels inArguments afterConditional before (.conditional whenTrue whenFalse :: rest) := by
  have hbranches := hreadable
  simp only [Token.Readable] at hbranches
  obtain ⟨f, hf, -⟩ := exists_piece hbranches.2.2 hfalse
  have hbranch : rereadBranch (reread levels) (branchPieces whenFalse) =
      reread levels false (branchPieces whenFalse) := by
    rw [hf]
    rfl
  have htake : (branchPieces whenFalse ++ sequencePieces rest).take 1 = branchPieces whenFalse ∧
      (branchPieces whenFalse ++ sequencePieces rest).tail = sequencePieces rest := by
    rw [hf]
    exact ⟨rfl, rfl⟩
  have hwhole := rereadRegion_conditional hreadable (reread levels) before (sequencePieces rest)
    (branchPieces whenFalse ++ sequencePieces rest) (by rw [closingPieces_of_not_sole htrue]; rfl)
  rw [htake.1, htake.2, hbranch, ← resume_conditional afterConditional] at hwhole
  obtain ⟨read, hread, -, hiff⟩ := hrest (reread levels false (openPieces whenTrue))
    (reread levels false (branchPieces whenFalse))
  rw [if_pos rfl, List.reverse_cons, List.append_assoc] at hread
  have hends : ¬EndsArguments levels whenTrue whenFalse rest := by
    rintro (⟨hsole, -⟩ | ⟨-, -, heq, -⟩)
    · exact htrue hsole
    · exact hfalse ⟨_, _, heq⟩
  refine ⟨_, hwhole.trans hread, head_conditional _ _ _, ?_⟩
  rw [List.singleton_append, conditional_iff h hreadable, branch_iff h hbranches.2.2 hfalse, hiff,
    AllStable]
  simp only [htrue, hends, not_false_eq_true, true_and, and_false, or_false]

/-- A comma after a conditional is lost, and nothing else is written like one. -/
theorem continues_comma {before rest : List Token} (hrest : AllReadable inArguments rest)
    (hnext : ∀ t ∈ rest.head?, (Token.operator .comma).Precedes t)
    (h : Continues levels inArguments false before rest) :
    Continues levels inArguments true before (.operator .comma :: rest) := by
  obtain ⟨read, hread, hhead, -⟩ := h
  refine ⟨read, hread, fun _ => rfl, ?_⟩
  have hunstable : ¬AllStable (levels + 1) inArguments true (.operator .comma :: rest) := by
    simp [AllStable, Token.isOperator]
  simp only [hunstable, iff_false]
  intro htexts
  have hfirst := hhead (by rw [htexts]; rfl)
  cases rest with
  | nil => contradiction
  | cons u us =>
    simp only [AllReadable] at hrest
    have hu := isComma_of_texts hrest.1 hfirst
    rw [not_precedes_comma (hnext u rfl)] at hu
    contradiction

theorem continues_token (h : Settles levels) {t : Token} (ht : t.Readable inArguments)
    (hcond : isConditional t = false) {afterConditional : Bool}
    (hcomma : afterConditional = true → t.isOperator .comma = false) {before rest : List Token}
    (hbefore : ∀ p ∈ before.head?, p.Precedes t)
    (hrest : Continues levels inArguments false (t.reread (reread levels) :: before) rest) :
    Continues levels inArguments afterConditional before (t :: rest) := by
  obtain ⟨read, hread, -, hiff⟩ := hrest
  have hpieces : (if afterConditional then afterComma (sequencePieces (t :: rest))
      else sequencePieces (t :: rest)) = t.pieces ++ sequencePieces rest := by
    rw [sequencePieces_cons]
    cases afterConditional with
    | false => rfl
    | true =>
      obtain ⟨p, more, hp, hpcomma⟩ := isComma_head_pieces t (sequencePieces rest)
      rw [if_pos rfl, hp]
      exact afterComma_of_not_comma (by rw [hpcomma, hcomma rfl]) more
  have hcondRead : isConditional (t.reread (reread levels)) = false := by
    rw [isConditional_reread, hcond]
  rw [if_neg Bool.false_ne_true, ← rereadRegion_token ht hcond hbefore, ← hpieces, List.reverse_cons,
    List.append_assoc] at hread
  refine ⟨_, hread, fun hfirst => ?_, ?_⟩
  · have := isComma_of_texts (readable_reread ht hcond levels) hfirst
    rw [isOperator_reread] at this
    rw [eq_of_isOperator this]
    rfl
  · rw [List.singleton_append, sequenceTexts_cons, sequenceTexts_cons, branchTexts_token hcondRead,
      branchTexts_token hcond, List.singleton_append, List.singleton_append, List.cons.injEq,
      h.token ht hcond, hiff, AllStable]
    · exact (and_iff_right hcomma).symm
    · rintro a b rfl
      contradiction

theorem continues (h : ∀ m < levels + 1, Settles m) {ts : List Token} :
    ∀ {afterConditional : Bool} {before : List Token}, AllReadable inArguments ts →
      (∀ p ∈ before.head?, (afterConditional = true → p.operator? = none) ∧
        ∀ t ∈ ts.head?, p.Precedes t) →
      Continues levels inArguments afterConditional before ts := by
  have hless : ∀ m < levels, Settles m := fun m hm => h m (Nat.lt_succ_of_lt hm)
  induction ts with
  | nil =>
    intro afterConditional before _ _
    have hpieces : (if afterConditional then afterComma (sequencePieces []) else sequencePieces []) =
        [] := by cases afterConditional <;> rfl
    refine ⟨[], ?_, id, ?_⟩
    · rw [hpieces, rereadRegion, List.append_nil]
    · simp only [AllStable]
  | cons t rest ih =>
    intro afterConditional before hts hbefore
    simp only [AllReadable] at hts
    obtain ⟨ht, hnext, hrest⟩ := hts
    cases hcond : isConditional t with
    | true =>
      cases t with
      | conditional whenTrue whenFalse =>
        by_cases htrue : SoleConditional whenTrue
        · exact continues_cutTrue hless ht hrest htrue afterConditional before
        by_cases hfalse : SoleConditional whenFalse
        · exact continues_cutFalse hless ht hrest htrue hfalse afterConditional before
        refine continues_whole hless ht htrue hfalse afterConditional fun a b => ih hrest fun p hp => ?_
        rw [← Option.some.inj hp]
        exact ⟨fun _ => rfl, fun u _ => by cases u <;> trivial⟩
      | _ => contradiction
    | false =>
      by_cases hcomma : (afterConditional && t.isOperator .comma) = true
      · simp only [Bool.and_eq_true] at hcomma
        obtain ⟨rfl, hcomma⟩ := hcomma
        obtain rfl := eq_of_isOperator hcomma
        refine continues_comma hrest hnext (ih hrest fun p hp => ⟨by simp, fun u _ => ?_⟩)
        have := (hbefore p hp).1 rfl
        cases p with
        | operator _ => contradiction
        | _ => cases u <;> trivial
      · refine continues_token (h levels (Nat.lt_succ_self levels)) ht hcond ?_
          (fun p hp => (hbefore p hp).2 t rfl) (ih hrest fun p hp => ?_)
        · intro hafter
          simpa [hafter] using hcomma
        · rw [← Option.some.inj hp]
          exact ⟨by simp, fun u hu => (hnext u hu).of_reread (reread levels)⟩

end

/-- Every number of levels settles what it can. -/
theorem settles (levels : Nat) : Settles levels := by
  induction levels using Nat.strong_induction_on with
  | _ levels ih =>
    intro inArguments ts hts
    cases levels with
    | zero =>
      cases ts with
      | nil => simp [reread, AllStable, sequenceTexts]
      | cons t rest =>
        obtain ⟨p, ps, hp, -⟩ := isComma_head_pieces t (sequencePieces rest)
        rw [sequenceTexts, sequenceTexts, sequencePieces_cons, hp]
        simp [reread, AllStable, sequencePieces]
    | succ levels =>
      obtain ⟨read, hread, -, hiff⟩ := @continues levels inArguments ih ts false [] hts (by simp)
      rw [if_neg Bool.false_ne_true, List.reverse_nil, List.nil_append] at hread
      rw [reread, hread]
      exact hiff

/-- Describing again yields the same text exactly if the sequence is stable. -/
theorem describe_tokenize_describe (limit : Nat) (source : String) :
    describe (tokenize limit (describe (tokenize limit source).result)).result =
        describe (tokenize limit source).result ↔
      AllStable (limit + 1) false false (tokenize limit source).result := by
  have hreadable := allReadable_tokenize limit source
  rw [tokenize_canonical limit hreadable, describe, describe, String.ofList_inj,
    sequenceChars_inj (allReadable_reread (limit + 1) hreadable) hreadable]
  exact settles (limit + 1) hreadable

-- The true branch is cut, but the zeros that are filled in were there before.
example : describe (tokenize 128 "f(? ? 2 : 0 : 0)").result = "f(? ? 2 : 0 : 0)" := by decide +kernel

/-- A comma after a conditional is written against its last branch and lost there. -/
theorem describe_tokenize_describe_comma :
    describe (tokenize 128 (describe (tokenize 128 "f(c ? a : b , d)").result)).result ≠
      describe (tokenize 128 "f(c ? a : b , d)").result := by
  decide +kernel

end Reckon
