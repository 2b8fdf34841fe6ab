import Reckon.Proofs.PieceTexts
import Reckon.Proofs.SourceReadable

/-!
Pieces that a cut branch leaves behind.

Where a branch is a conditional by itself, its text is cut too early, and colons are left over. They end
arguments. Elsewhere each is read as an undefined token, and then the text has grown for good: no text is
read as itself with something more before it.
-/

namespace Reckon

/-- Reading canonical text gives what can be spelled. -/
theorem allReadable_reread (levels : Nat) {inArguments : Bool} {ts : List Token}
    (h : AllReadable inArguments ts) :
    AllReadable inArguments (reread levels inArguments (sequencePieces ts)) := by
  have hread := @rereads 0 levels inArguments _ (spelled_sequencePieces h) [] [] (by simp) (.inl rfl) 0
  rw [← hread]
  exact (readsReadable_readNested 0 levels).1 _ _ _

theorem push_append {c : Token} (hc : c.operator? = none) (newer older : List Token) (t : Token) :
    push (newer ++ c :: older) t = push newer t ++ c :: older := by
  cases newer with
  | nil =>
    rw [List.nil_append, push_of_operator?_eq_none hc, push_nil]
    rfl
  | cons a newer => rw [List.cons_append, push_cons, push_cons a newer, List.append_assoc]

theorem pushSpelled_append {c : Token} (hc : c.operator? = none) (newer older : List Token)
    (t : Token) : pushSpelled (newer ++ c :: older) t = pushSpelled newer t ++ c :: older := by
  cases t with
  | operator op =>
    cases op with
    | notNot => simp only [pushSpelled, push_append hc]
    | _ => exact push_append hc newer older _
  | _ => exact push_append hc newer older _

/-- What stands before a token other than an operator is settled. -/
theorem rereadRegion_append (nested : PieceReader) (inArguments : Bool) {c : Token}
    (hc : c.operator? = none) (newer older : List Token) (ps : List Piece) :
    rereadRegion nested inArguments (newer ++ c :: older) ps =
      (c :: older).reverse ++ rereadRegion nested inArguments newer ps := by
  fun_induction rereadRegion nested inArguments newer ps with
  | case1 newer => rw [rereadRegion, List.reverse_append]
  | case2 newer rest hin => rw [rereadRegion, if_pos hin, List.reverse_append]
  | case3 newer rest hin ih => rw [rereadRegion, if_neg hin, push_append hc, ih]
  | case4 newer rest hin => rw [rereadRegion, if_pos hin, List.reverse_append]
  | case5 newer rest hin ih => rw [rereadRegion, if_neg hin, push_append hc, ih]
  | case6 newer t rest ht ih =>
    rw [rereadRegion, pushSpelled_append hc, ih]
    exact ht
  | case7 newer rest after ih => rw [rereadRegion, push_append hc, ih]

/-- So many colons, each before a zero. -/
def zeroPieces : Nat → List Piece
  | 0 => []
  | count + 1 => .otherwise :: .token (.number 0.0) :: zeroPieces count

theorem zeroPieces_succ (count : Nat) :
    zeroPieces (count + 1) = zeroPieces count ++ [.otherwise, .token (.number 0.0)] := by
  induction count with
  | zero => rfl
  | succ count ih =>
    conv_lhs => rw [zeroPieces, ih]
    rfl

/-- What is read again as it is. -/
def Token.IsMark (t : Token) : Prop := t = .undefined ∨ t = .number 0.0

theorem reread_zero (nested : PieceReader) : (Token.number 0.0).reread nested = .number 0.0 := by
  have hfinite : (0.0 : Float).isFinite := by decide +kernel
  simp only [Token.reread, hfinite, if_true]

theorem Token.IsMark.conditional {t : Token} (h : t.IsMark) : isConditional t = false := by
  rcases h with rfl | rfl <;> rfl

theorem rereadRegion_mark {t : Token} (h : t.IsMark) {nested : PieceReader} (before : List Token)
    (ps : List Piece) : rereadRegion nested false before (t.pieces ++ ps) =
      rereadRegion nested false (t :: before) ps := by
  have hreadable : t.Readable false := by
    rcases h with rfl | rfl
    · simp only [Token.Readable]
    · exact readable_zero false
  have hbefore : ∀ p ∈ before.head?, p.Precedes t := by
    intro p _
    rcases h with rfl | rfl <;> cases p <;> trivial
  have hreread : t.reread nested = t := by
    rcases h with rfl | rfl
    · rfl
    · exact reread_zero nested
  rw [rereadRegion_token hreadable h.conditional hbefore, hreread]

theorem rereadRegion_marks {marks : List Token} (h : ∀ t ∈ marks, t.IsMark) (nested : PieceReader)
    (ps : List Piece) :
    rereadRegion nested false [] (sequencePieces marks ++ ps) =
      marks ++ rereadRegion nested false [] ps := by
  induction marks with
  | nil => rfl
  | cons t marks ih =>
    have ht := h t List.mem_cons_self
    have hother : t.operator? = none := by rcases ht with rfl | rfl <;> rfl
    have hsettled := rereadRegion_append nested false hother [] []
      (sequencePieces marks ++ ps)
    rw [sequencePieces_cons, List.append_assoc, rereadRegion_mark ht, ← List.nil_append [t], hsettled,
      ih fun u hu => h u (List.mem_cons_of_mem t hu)]
    rfl

/-- A text that begins with the texts of marks is that of a sequence which begins with the marks. -/
theorem exists_of_marks {marks ts : List Token} (hmarks : ∀ t ∈ marks, t.IsMark)
    {inArguments : Bool} (h : AllReadable inArguments ts) {texts : List (List Char)}
    (htexts : sequenceTexts ts = sequenceTexts marks ++ texts) :
    ∃ rest, ts = marks ++ rest ∧ AllReadable inArguments rest ∧ sequenceTexts rest = texts := by
  induction marks generalizing ts with
  | nil => exact ⟨ts, rfl, h, htexts⟩
  | cons m marks ih =>
    have hm := hmarks m List.mem_cons_self
    rw [sequenceTexts_cons, branchTexts_token hm.conditional] at htexts
    cases ts with
    | nil => contradiction
    | cons t ts =>
      simp only [AllReadable] at h
      obtain ⟨ht, -, hts⟩ := h
      have hcond : isConditional t = false := by
        cases t with
        | conditional whenTrue whenFalse =>
          rw [sequenceTexts_cons, branchTexts_conditional] at htexts
          have hfirst := (List.cons.inj htexts).1
          rcases hm with rfl | rfl
          · exact absurd hfirst (by decide)
          · rw [zeroChars] at hfirst
            exact absurd hfirst (by decide)
        | _ => rfl
      rw [sequenceTexts_cons, branchTexts_token hcond] at htexts
      simp only [List.cons_append, List.nil_append, List.cons.injEq] at htexts
      obtain ⟨hchars, htexts⟩ := htexts
      obtain rfl := eq_of_tokenChars ht (hm.imp id .inl) hchars
      obtain ⟨rest, rfl, hrest⟩ := ih (fun u hu => hmarks u (List.mem_cons_of_mem t hu)) hts htexts
      exact ⟨rest, rfl, hrest⟩

/-- No text is read as itself with marks before it: the marks would be there without end. -/
theorem sequenceTexts_ne_of_marks {marks : List Token} (hne : marks ≠ [])
    (hmarks : ∀ t ∈ marks, t.IsMark) (nested : PieceReader) {ts : List Token}
    (h : AllReadable false ts) :
    sequenceTexts ts ≠
      sequenceTexts (marks ++ rereadRegion nested false [] (sequencePieces ts)) := by
  induction hlen : ts.length using Nat.strong_induction_on generalizing ts with
  | _ n ih =>
    subst hlen
    intro htexts
    rw [sequenceTexts_append] at htexts
    obtain ⟨rest, rfl, hrest, htexts⟩ := exists_of_marks hmarks h htexts
    have hpieces : sequencePieces (marks ++ rest) = sequencePieces marks ++ sequencePieces rest :=
      List.flatMap_append
    rw [hpieces, rereadRegion_marks hmarks] at htexts
    refine ih rest.length ?_ hrest rfl htexts
    rw [List.length_append]
    exact Nat.lt_add_of_pos_left (List.length_pos_iff.mpr hne)

/-- Colons left over are undefined tokens outside arguments. -/
theorem exists_marks_of_zeroPieces (count : Nat) (nested : PieceReader) (ps : List Piece) :
    ∃ marks, (∀ t ∈ marks, t.IsMark) ∧ (0 < count → marks ≠ []) ∧
      rereadRegion nested false [] (zeroPieces count ++ ps) =
        marks ++ rereadRegion nested false [] ps := by
  induction count with
  | zero => exact ⟨[], by simp, by simp, rfl⟩
  | succ count ih =>
    obtain ⟨marks, hmarks, -, hread⟩ := ih
    have hundefined := @rereadRegion_append nested false .undefined rfl [] [] (.token (.number 0.0) :: (zeroPieces count ++ ps))
    have hzero := @rereadRegion_marks [.number 0.0] (by simp [Token.IsMark]) nested
      (zeroPieces count ++ ps)
    refine ⟨.undefined :: .number 0.0 :: marks, ?_, by simp, ?_⟩
    · intro t ht
      simp only [List.mem_cons] at ht
      rcases ht with rfl | rfl | ht
      · exact .inl rfl
      · exact .inr rfl
      · exact hmarks t ht
    · rw [zeroPieces, List.cons_append, List.cons_append, rereadRegion, if_neg Bool.false_ne_true]
      refine hundefined.trans ?_
      rw [List.cons_append, List.cons_append, ← hread]
      exact congrArg (Token.undefined :: ·) hzero

/-- Where colons are left over, the text stays the same only at the end of arguments. -/
theorem sequenceTexts_stray_iff (nested : PieceReader) {inArguments : Bool} {lead rest : List Token}
    (hlead : lead = [] ∨ lead = [.number 0.0]) (hrest : AllReadable inArguments rest) (count : Nat) :
    sequenceTexts (rereadRegion nested inArguments []
        (sequencePieces lead ++ (zeroPieces (count + 1) ++ sequencePieces rest))) =
      sequenceTexts rest ↔ inArguments = true ∧ rest = lead := by
  have hmarks : ∀ t ∈ lead, t.IsMark := by
    rcases hlead with rfl | rfl
    · simp
    · simp [Token.IsMark]
  cases inArguments with
  | false =>
    obtain ⟨marks, hmore, hne, hread⟩ :=
      exists_marks_of_zeroPieces (count + 1) nested (sequencePieces rest)
    have hall : ∀ t ∈ lead ++ marks, t.IsMark := by
      intro t ht
      exact (List.mem_append.mp ht).elim (hmarks t) (hmore t)
    have hgrown := sequenceTexts_ne_of_marks (by simp [hne]) hall nested hrest
    rw [rereadRegion_marks hmarks, hread, ← List.append_assoc]
    simp only [Bool.false_eq_true, false_and, iff_false]
    exact fun h => hgrown h.symm
  | true =>
    have hread : rereadRegion nested true []
        (sequencePieces lead ++ (zeroPieces (count + 1) ++ sequencePieces rest)) = lead := by
      have hstop (before : List Token) : rereadRegion nested true before
          (zeroPieces (count + 1) ++ sequencePieces rest) = before.reverse := by
        rw [zeroPieces, List.cons_append, rereadRegion, if_pos rfl]
      rcases hlead with rfl | rfl
      · exact hstop []
      · have hzero := @rereadRegion_token true _ (readable_zero true) rfl [] (by simp) nested
          (zeroPieces (count + 1) ++ sequencePieces rest)
        rw [reread_zero] at hzero
        exact hzero.trans (hstop _)
    rw [hread]
    refine ⟨fun h => ⟨rfl, ?_⟩, fun h => by rw [h.2]⟩
    obtain ⟨more, rfl, hmore, hnil⟩ := @exists_of_marks lead rest hmarks true hrest []
      (by rw [List.append_nil, h])
    cases more with
    | nil => exact List.append_nil lead
    | cons t more =>
      obtain ⟨p, ps, hp, -⟩ := isComma_head_pieces t (sequencePieces more)
      rw [sequenceTexts, sequencePieces_cons, hp] at hnil
      contradiction

end Reckon
