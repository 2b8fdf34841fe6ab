import Reckon.Proofs.LexemeReading
import Reckon.Proofs.LiteralReading

/-!
Reading in brackets.

Reading looks at nothing but the region it reads, so a text is read the same wherever it stands: the
places in its diagnostics move along, and the limit that they name is that of the whole source. What
stands between brackets is cut out as it is if it is balanced, and so it is read as it is by itself.
-/

namespace Reckon

/-! Diagnostics of a text as those of a source around it. -/

/-- A cause as another limit of nesting has it. -/
def Cause.underLimit (limit : Nat) : Cause → Cause
  | .nestingIgnored _ => .nestingIgnored limit
  | cause => cause

/-- A diagnostic of a text as one of a source that is read under another limit and holds the text so
many bytes from its start. -/
def Diagnostic.inside (offset limit : Nat) (d : Diagnostic) : Diagnostic :=
  ⟨d.cause.underLimit limit, d.span?.map fun span => ⟨span.start + offset, span.stop + offset⟩⟩

def Reported.inside {α : Type} (offset limit : Nat) (x : Reported α) : Reported α :=
  ⟨x.result, x.diagnostics.map (.inside offset limit)⟩

def StringLiteral.moved (offset : Nat) (literal : StringLiteral) : StringLiteral :=
  { literal with stop := literal.stop + offset }

def Parenthesized.moved (offset : Nat) (p : Parenthesized) : Parenthesized :=
  { p with start := p.start + offset, stop := p.stop + offset }

def Lexeme.moved (offset : Nat) : Lexeme → Lexeme
  | .token t pos rest => .token t (pos + offset) rest
  | .dropped pos rest => .dropped (pos + offset) rest
  | .last => .last

section
variable {α β : Type} {offset limit : Nat}

theorem Reported.result_inside (x : Reported α) : (x.inside offset limit).result = x.result := rfl

theorem Reported.inside_pure (a : α) : (pure a : Reported α).inside offset limit = pure a := rfl

theorem Reported.inside_bind (x : Reported α) (f : α → Reported β) :
    (x >>= f).inside offset limit =
      x.inside offset limit >>= fun a => (f a).inside offset limit :=
  ext' rfl List.map_append

theorem reportAt_moved {cause : Cause} (h : cause.underLimit limit = cause) (start stop : Nat) :
    reportAt (start + offset) (stop + offset) cause =
      (reportAt start stop cause).inside offset limit := by
  simp [reportAt, Reported.report, Reported.inside, Diagnostic.inside, h]

theorem reportAt?_moved {cause? : Option Cause}
    (h : ∀ cause, cause? = some cause → cause.underLimit limit = cause) (start stop : Nat) :
    reportAt? (start + offset) (stop + offset) cause? =
      (reportAt? start stop cause?).inside offset limit := by
  cases cause? with
  | none => rfl
  | some cause => exact reportAt_moved (h cause rfl) start stop

end

/-! Every reader reads the same further on. -/

section
variable {offset limit : Nat}

theorem underLimit_of_isEscape {cause : Cause} (h : cause.isEscape) :
    cause.underLimit limit = cause := by
  cases cause <;> first | rfl | contradiction

theorem readString_moved (quote : Char) (start pos : Nat) (cs : List Char) :
    readString quote (start + offset) (pos + offset) cs =
      (·.moved offset) <$> (readString quote start pos cs).inside offset limit := by
  fun_induction readString quote start pos cs with
  | case1 pos =>
    rw [readString, reportAt_moved rfl]
    rfl
  | case2 pos cs =>
    rw [readString, if_pos rfl, Nat.add_right_comm]
    rfl
  | case3 pos cs escape next hquote ih =>
    have hnext : pos + offset + 1 + (Escape.read cs).size = next + offset := by
      show _ = pos + 1 + (Escape.read cs).size + offset
      omega
    rw [readString, if_neg hquote, if_pos rfl]
    simp only [hnext]
    rw [reportAt?_moved fun cause h => underLimit_of_isEscape (Escape.isEscape_read cs cause h), ih]
    simp only [Reported.inside_bind, Reported.inside_pure, map_bind, bind_map_left, map_pure]
    rfl
  | case4 pos c cs hquote hbackslash ih =>
    rw [readString, if_neg hquote, if_neg hbackslash, Nat.add_right_comm, ih]
    simp only [Reported.inside_bind, Reported.inside_pure, map_bind, bind_map_left, map_pure]
    rfl

theorem readParenthesized_moved (pos : Nat) (cs : List Char) :
    readParenthesized (pos + offset) cs =
      (·.moved offset) <$> (readParenthesized pos cs).inside offset limit := by
  have hstart : pos + offset + 1 = pos + 1 + offset := Nat.add_right_comm ..
  unfold readParenthesized
  simp only [hstart, Nat.add_right_comm _ offset (width _), Nat.add_right_comm _ offset 1]
  split
  · rfl
  · rw [reportAt_moved (by split <;> rfl)]
    rfl

theorem moved_ite {p : Prop} [Decidable p] (m n : Nat) :
    (if p then m + offset else n + offset) = (if p then m else n) + offset := by
  split <;> rfl

/-- Whether one reader reads as another does, but further on and under another limit. -/
def ReadsFurther (offset limit : Nat) (nested nested' : RegionReader) : Prop :=
  ∀ inArguments pos cs, nested' inArguments (pos + offset) cs =
    (nested inArguments pos cs).inside offset limit

section
variable {nested nested' : RegionReader} (hreads : ReadsFurther offset limit nested nested')

include hreads

theorem ReadsFurther.readBranch (branch : Branch) (pos : Nat) (text : List Char) :
    readBranch nested' branch (pos + offset) text =
      (readBranch nested branch pos text).inside offset limit := by
  unfold Reckon.readBranch
  split
  · rw [Nat.add_right_comm, reportAt_moved rfl, Reported.inside_bind, Reported.inside_pure]
  · exact hreads false pos text

theorem ReadsFurther.readConditional (pos : Nat) (cs : List Char) :
    readConditional nested' (pos + offset) cs =
      (·.moved offset) <$> (readConditional nested pos cs).inside offset limit := by
  have hmove (m n : Nat) : m + offset + n = m + n + offset := Nat.add_right_comm ..
  have hopen (b : BranchText) : ∀ cause, b.openPart? = some cause →
      cause.underLimit limit = cause := by
    unfold BranchText.openPart?
    split
    · simp [Cause.underLimit]
    · split <;> simp [Cause.underLimit]
  have htrue (b : BranchText) : ∀ cause,
      (if b.terminated then none else some (b.openPart?.getD .missingColon)) = some cause →
        cause.underLimit limit = cause := by
    split
    · simp
    · intro cause h
      obtain rfl := Option.some.inj h
      cases ho : b.openPart? with
      | none => rfl
      | some cause => exact hopen b cause ho
  have hfalse (b : BranchText) : ∀ cause,
      (if b.terminated then none else b.openPart?) = some cause →
        cause.underLimit limit = cause := by
    split
    · simp
    · exact hopen b
  unfold Reckon.readConditional
  simp only [hmove, moved_ite, reportAt?_moved (htrue _), reportAt?_moved (hfalse _),
    hreads.readBranch, Reported.inside_bind, Reported.inside_pure, map_bind, map_pure]
  rfl

theorem ReadsFurther.readNamed (pos : Nat) (cs : List Char) :
    readNamed nested' (pos + offset) cs =
      (·.moved offset) <$> (readNamed nested pos cs).inside offset limit := by
  unfold Reckon.readNamed
  simp only [Nat.add_right_comm _ offset (width _)]
  split
  · rfl
  · simp only [@readParenthesized_moved offset limit, Parenthesized.moved, bind_map_left,
      hreads _ _ _, Reported.inside_bind, Reported.inside_pure, map_bind, map_pure, Lexeme.moved]
  · rfl

theorem ReadsFurther.readLexeme (inArguments : Bool) (pos : Nat) (c : Char) (cs : List Char) :
    readLexeme nested' inArguments (pos + offset) c cs =
      (·.moved offset) <$> (readLexeme nested inArguments pos c cs).inside offset limit := by
  have hmove (m n : Nat) : m + offset + n = m + n + offset := Nat.add_right_comm ..
  unfold Reckon.readLexeme
  split
  · exact hreads.readNamed pos (c :: cs)
  · split
    · simp only [readNumeral, hmove, Reported.inside_pure, map_pure, Lexeme.moved]
    · split
      · simp only [hmove, @readString_moved offset limit, StringLiteral.moved, bind_map_left,
          Reported.inside_bind, Reported.inside_pure, map_bind, map_pure, Lexeme.moved]
      · split
        · simp only [hmove]
          split
          · rw [reportAt_moved rfl, Reported.inside_bind, map_bind]
            rfl
          · rfl
        · split
          · simp only [@readParenthesized_moved offset limit, Parenthesized.moved, bind_map_left,
              hreads _ _ _, Reported.inside_bind, Reported.inside_pure, map_bind, map_pure, Lexeme.moved]
          · split
            · exact hreads.readConditional pos cs
            · split
              · rw [hmove, reportAt_moved rfl, Reported.inside_bind, map_bind]
                rfl
              · rw [hmove, reportAt_moved rfl, Reported.inside_bind, map_bind]
                rfl

end

theorem addToken_moved (before : List Token) (t : Token) (start stop : Nat) :
    addToken before t (start + offset) (stop + offset) =
      (addToken before t start stop).inside offset limit := by
  unfold addToken
  split
  · split
    · rfl
    · rw [reportAt_moved rfl]
      rfl
    · rw [reportAt_moved rfl]
      rfl
    · rw [reportAt_moved rfl]
      rfl
    · rfl
    · split
      · rfl
      · rw [reportAt_moved rfl]
        rfl
  · rfl

theorem ReadsFurther.readRegion {nested nested' : RegionReader}
    (hreads : ReadsFurther offset limit nested nested') (inArguments : Bool) (before : List Token)
    (pos : Nat) (cs : List Char) :
    readRegion nested' inArguments before (pos + offset) cs =
      (readRegion nested inArguments before pos cs).inside offset limit := by
  induction hlen : cs.length using Nat.strong_induction_on generalizing before pos cs with
  | _ n ih =>
    subst hlen
    cases hdrop : cs.dropWhile isGap with
    | nil =>
      rw [readRegion_nil hdrop, readRegion_nil hdrop]
      rfl
    | cons c more =>
      have hshorter := @length_rest_lt_of_readLexeme nested inArguments
        (pos + (cs.takeWhile isGap).length) c cs more _ hdrop rfl
      rw [readRegion_cons hdrop, readRegion_cons hdrop, Nat.add_right_comm, hreads.readLexeme,
        bind_map_left, Reported.inside_bind]
      apply Reported.bind_congr
      rw [Reported.result_inside]
      revert hshorter
      cases (Reckon.readLexeme nested inArguments _ c more).result with
      | token t stop rest =>
        intro hshorter
        simp only [Lexeme.moved, Reported.inside_bind, ← addToken_moved]
        exact Reported.bind_congr (ih rest.length hshorter _ stop rest rfl)
      | dropped stop rest => exact fun hshorter => ih rest.length hshorter before stop rest rfl
      | last => exact fun _ => rfl

theorem readsFurther_readNested (offset limit limit' levels : Nat) :
    ReadsFurther offset limit' (readNested limit levels) (readNested limit' levels) := by
  induction levels with
  | zero =>
    intro inArguments pos cs
    rw [readNested, readNested, Reported.inside_bind, Nat.add_right_comm]
    rfl
  | succ levels ih => exact fun inArguments pos cs => ih.readRegion inArguments [] pos cs

end

/-! What stands in brackets. -/

section
variable {nested : RegionReader} {inArguments : Bool}

theorem width_gap {gap : List Char} (hgap : ∀ g ∈ gap, isGap g) : width gap = gap.length := by
  refine width_eq_length fun g hg => ?_
  have := hgap g hg
  simp only [isGap, Bool.or_eq_true, beq_iff_eq] at this
  rcases this with rfl | rfl <;> rfl

theorem balanced_gap {gap : List Char} (hgap : ∀ g ∈ gap, isGap g) : Balanced gap := by
  refine balanced_of_forall fun g hg => ?_
  have := hgap g hg
  simp only [isGap, Bool.or_eq_true, beq_iff_eq] at this
  rcases this with rfl | rfl <;> decide

theorem exists_of_not_all_gap {text : List Char} (h : text.all isGap = false) :
    ∃ gap c more, text = gap ++ c :: more ∧ (∀ g ∈ gap, isGap g) ∧ isGap c = false := by
  induction text with
  | nil => contradiction
  | cons d text ih =>
    cases hd : isGap d with
    | false => exact ⟨[], d, text, rfl, by simp, hd⟩
    | true =>
      rw [List.all_cons, hd, Bool.true_and] at h
      obtain ⟨gap, c, more, rfl, hgap, hc⟩ := ih h
      refine ⟨d :: gap, c, more, rfl, ?_, hc⟩
      exact List.forall_mem_cons.mpr ⟨hd, hgap⟩

theorem takeWhile_gap {gap more : List Char} {c : Char} (hgap : ∀ g ∈ gap, isGap g)
    (hc : isGap c = false) : (gap ++ c :: more).takeWhile isGap = gap := by
  rw [List.takeWhile_append_of_pos hgap, List.takeWhile_cons_of_neg (by simp [hc]), List.append_nil]

/-- A region may as well begin after the gap that it begins with. -/
theorem readRegion_gap_append {gap more : List Char} {c : Char} (hgap : ∀ g ∈ gap, isGap g)
    (hc : isGap c = false) (before : List Token) (pos : Nat) :
    readRegion nested inArguments before (pos + gap.length) (c :: more) =
      readRegion nested inArguments before pos (gap ++ c :: more) := by
  have hdrop : (c :: more).dropWhile isGap = c :: more := by
    rw [List.dropWhile_cons_of_neg (by simp [hc])]
  have htake : (c :: more).takeWhile isGap = [] := by
    rw [List.takeWhile_cons_of_neg (by simp [hc])]
  rw [readRegion_cons hdrop, readRegion_cons (dropWhile_gap hgap hc), htake, takeWhile_gap hgap hc]
  rfl

/-- A region of a single token. -/
theorem readRegion_lone {c : Char} {more : List Char} (hc : isGap c = false) {pos stop : Nat}
    {token : Reported Token}
    (h : readLexeme nested inArguments pos c more = (.token · stop []) <$> token) :
    readRegion nested inArguments [] pos (c :: more) = ([·]) <$> token := by
  have hdrop : (c :: more).dropWhile isGap = c :: more := by
    rw [List.dropWhile_cons_of_neg (by simp [hc])]
  have htake : (c :: more).takeWhile isGap = [] := by
    rw [List.takeWhile_cons_of_neg (by simp [hc])]
  have hadd (t : Token) (start : Nat) : addToken [] t start stop = pure [t] := by
    cases t <;> rfl
  rw [readRegion_cons hdrop, htake, List.length_nil, Nat.add_zero, h, bind_map_left,
    map_eq_pure_bind]
  refine Reported.bind_congr ?_
  simp only [hadd, pure_bind, readRegion_nil (rfl : [].dropWhile isGap = [])]
  rfl

theorem readRegion_parenthesized {inner : List Char} (h : Balanced inner) (pos : Nat) :
    readRegion nested inArguments [] pos ('(' :: (inner ++ [')'])) =
      (fun tokens => [.group tokens]) <$> nested false (pos + 1) inner := by
  have hlexeme : readLexeme nested inArguments pos '(' (inner ++ [')']) =
      (.token · (pos + 1 + width inner + 1) []) <$> (.group <$> nested false (pos + 1) inner) := by
    have hread : readLexeme nested inArguments pos '(' (inner ++ [')']) = (do
        let p ← readParenthesized pos (inner ++ [')'])
        let tokens ← nested false p.start p.interior
        pure (.token (.group tokens) p.stop p.rest)) := rfl
    rw [hread, readParenthesized_balanced h, pure_bind, Functor.map_map, map_eq_pure_bind]
  rw [readRegion_lone rfl hlexeme, Functor.map_map]

theorem readRegion_called {name inner : List Char} (hname : IsName name)
    (hword : Operator.ofWord? name = none) (h : Balanced inner) (pos : Nat) :
    readRegion nested inArguments [] pos (name ++ '(' :: (inner ++ [')'])) =
      (fun tokens => [.call (String.ofList name) tokens]) <$>
        nested true (pos + width name + 1) inner := by
  have hword' := @IsName.readWord_append _ hname ('(' :: (inner ++ [')'])) (by
    intro d more hd
    obtain ⟨rfl, -⟩ := List.cons.inj hd
    decide)
  obtain ⟨c, more, rfl, hc⟩ := hname.exists_cons
  have hlexeme : readLexeme nested inArguments pos c (more ++ '(' :: (inner ++ [')'])) =
      (.token · (pos + width (c :: more) + 1 + width inner + 1) []) <$>
        (.call (String.ofList (c :: more)) <$>
          nested true (pos + width (c :: more) + 1) inner) := by
    rw [readLexeme, if_pos hc, ← List.cons_append, readNamed, hword']
    simp only [hword, readParenthesized_balanced h, pure_bind]
    rw [Functor.map_map, map_eq_pure_bind]
  rw [List.cons_append,
    readRegion_lone (isGap_of_isNameChar (isNameChar_of_isNameStart hc)) hlexeme, Functor.map_map]

/-- A branch that holds more than gaps is read like any region, its first gap being skipped. -/
theorem readBranch_dropped {limit levels : Nat} {gap more : List Char} {c : Char}
    (hgap : ∀ g ∈ gap, isGap g) (hc : isGap c = false) (branch : Branch) (pos : Nat) :
    readBranch (readNested limit (levels + 1)) branch (pos + gap.length) (c :: more) =
      readNested limit (levels + 1) false pos (gap ++ c :: more) := by
  rw [readBranch, List.all_cons, hc, Bool.false_and, if_neg Bool.false_ne_true]
  exact readRegion_gap_append hgap hc [] pos

theorem readRegion_chosen {limit levels : Nat} {whenTrue whenFalse : List Char}
    (htrue : Balanced whenTrue) (hcolon : Shields ':' whenTrue) (htext : whenTrue.all isGap = false)
    (hfalse : Balanced whenFalse) (hblank : Shields ' ' whenFalse)
    (htext' : whenFalse.all isGap = false) (pos : Nat) :
    readRegion (readNested limit (levels + 1)) inArguments [] pos
        ('?' :: (whenTrue ++ ':' :: whenFalse)) = (do
      let trueTokens ← readNested limit (levels + 1) false (pos + 1) whenTrue
      let falseTokens ←
        readNested limit (levels + 1) false (pos + 1 + width whenTrue + 1) whenFalse
      pure [.conditional trueTokens falseTokens]) := by
  obtain ⟨gap, c, more, rfl, hgap, hc⟩ := exists_of_not_all_gap htext
  obtain ⟨gap', c', more', rfl, hgap', hc'⟩ := exists_of_not_all_gap htext'
  have hcut : branchText ':' .outside 0 (c :: (more ++ ':' :: (gap' ++ c' :: more'))) =
      ⟨c :: more, gap' ++ c' :: more', true, .outside, 0⟩ := by
    have hend : branchText ':' .outside 0 (':' :: (gap' ++ c' :: more')) =
      ⟨[], gap' ++ c' :: more', true, .outside, 0⟩ := rfl
    have := ((balanced_gap hgap).of_append htrue).branchText
      ((balanced_gap hgap).shields_of_append hcolon) (':' :: (gap' ++ c' :: more'))
    rwa [hend, List.append_nil] at this
  have hcut' : branchText ' ' .outside 0 (c' :: more') =
      ⟨c' :: more', [], false, .outside, 0⟩ := by
    have hend : branchText ' ' .outside 0 [] = ⟨[], [], false, .outside, 0⟩ := rfl
    have := ((balanced_gap hgap').of_append hfalse).branchText
      ((balanced_gap hgap').shields_of_append hblank) []
    rwa [List.append_nil, hend, List.append_nil] at this
  have hwidth (start : Nat) : start + gap.length + width (c :: more) =
      start + width (gap ++ c :: more) := by
    rw [width_append, width_gap hgap, Nat.add_assoc]
  have hwidth' (start : Nat) : start + gap'.length + width (c' :: more') =
      start + width (gap' ++ c' :: more') := by
    rw [width_append, width_gap hgap', Nat.add_assoc]
  have hlexeme : readLexeme (readNested limit (levels + 1)) inArguments pos '?'
      (gap ++ c :: (more ++ ':' :: (gap' ++ c' :: more'))) =
        (.token · (pos + 1 + width (gap ++ c :: more) + 1 + width (gap' ++ c' :: more')) []) <$> (do
          let trueTokens ←
            readNested limit (levels + 1) false (pos + 1) (gap ++ c :: more)
          let falseTokens ← readNested limit (levels + 1) false
            (pos + 1 + width (gap ++ c :: more) + 1) (gap' ++ c' :: more')
          pure (.conditional trueTokens falseTokens)) := by
    have hread (cs : List Char) :
        readLexeme (readNested limit (levels + 1)) inArguments pos '?' cs =
          readConditional (readNested limit (levels + 1)) pos cs := rfl
    rw [hread, readConditional, takeWhile_gap hgap hc, dropWhile_gap hgap hc, hcut]
    simp only [if_true, reportAt?, pure_bind, takeWhile_gap hgap' hc', dropWhile_gap hgap' hc',
      hcut', readBranch_dropped hgap hc, readBranch_dropped hgap' hc', hwidth, hwidth', map_bind, map_pure]
    rfl
  rw [List.append_assoc, List.cons_append, readRegion_lone rfl hlexeme]
  simp only [map_bind, map_pure]

end
end Reckon
