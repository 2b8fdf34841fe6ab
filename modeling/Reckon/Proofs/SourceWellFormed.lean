import Reckon.Proofs.SourceReadable
import Reckon.Proofs.TokenTree

/-!
Sources are read as well-formed trees.

What each sequence of the tree may hold follows from its being readable. The limit of nesting is met by
the tokens that hold sequences; a branch without text is given a zero, which no limit keeps out.
-/

namespace Reckon

def Token.HoldsSequences (t : Token) : Prop := isCall t ∨ isGroup t ∨ isConditional t

/-- What every sequence of a tree that was read within a limit of nesting satisfies. -/
structure WellFormed (limit : Nat) (inArguments : Bool) (root : List Token) : Prop where
  operators {level inside ts} : SequenceAt inArguments root level inside ts →
    ∀ before p o after, ts = before ++ .operator p :: .operator o :: after →
      (o = .not ∨ o = .notNot ∨ o = .sub) ∧ ¬(p = .not ∨ p = .notNot ∨ p = .sub) ∨
        p = .notNot ∧ o = .sub
  comma {level inside ts} : SequenceAt inArguments root level inside ts →
    .operator .comma ∈ ts → inside = true
  undefined {level inside ts} : SequenceAt inArguments root level inside ts →
    .undefined ∈ ts → inside = false
  name {level inside ts s} : SequenceAt inArguments root level inside ts →
    .name s ∈ ts → IsName s.toList ∧ Operator.ofWord? s.toList = none
  call {level inside ts s arguments} : SequenceAt inArguments root level inside ts →
    .call s arguments ∈ ts → IsName s.toList ∧ Operator.ofWord? s.toList = none
  number {level inside ts x} : SequenceAt inArguments root level inside ts →
    .number x ∈ ts → x.isNaN = false ∧ x.toBits.toNat < Binary.signWeight
  nesting {level inside ts t} : SequenceAt inArguments root level inside ts →
    t ∈ ts → t.HoldsSequences → level ≤ limit

theorem isSign_iff (op : Operator) : op.isSign ↔ op = .not ∨ op = .notNot ∨ op = .sub := by
  cases op <;> simp [Operator.isSign]

/-! Readable trees. -/

section
variable {inArguments : Bool}

theorem AllReadable.precedes {before after : List Token} {t next : Token}
    (h : AllReadable inArguments (before ++ t :: next :: after)) : t.Precedes next := by
  induction before with
  | nil =>
    simp only [List.nil_append, AllReadable] at h
    exact h.2.1 next rfl
  | cons u before ih =>
    simp only [List.cons_append, AllReadable] at h
    exact ih h.2.2

theorem AllReadable.of_sequenceAt {root ts : List Token} {level : Nat} {inside : Bool}
    (h : AllReadable inArguments root) (hts : SequenceAt inArguments root level inside ts) :
    AllReadable inside ts := by
  induction hts with
  | root => exact h
  | arguments _ hm ih =>
    have ht := ih.readable _ hm
    simp only [Token.Readable] at ht
    exact ht.2
  | interior _ hm ih =>
    have ht := ih.readable _ hm
    simpa only [Token.Readable] using ht
  | whenTrue _ hm ih =>
    have ht := ih.readable _ hm
    simp only [Token.Readable] at ht
    exact ht.1
  | whenFalse _ hm ih =>
    have ht := ih.readable _ hm
    simp only [Token.Readable] at ht
    exact ht.2.2

end

theorem isNaN_of_unsigned {x : Float} (h : Unsigned x) : x.isNaN = false := by
  by_cases hx : x.isFinite
  · exact isNaN_of_isFinite hx
  · have hbits : x.toBits.toNat = Binary.infinityBits := by
      have hge := mt (isFinite_iff h.lt_signWeight).mpr hx
      unfold Unsigned at h
      omega
    rw [← floatOf_toBits x, hbits]
    decide +kernel

/-! The limit of nesting. -/

theorem SequenceAt.nesting_le {inArguments inside : Bool} {root ts : List Token} {level : Nat}
    (h : SequenceAt inArguments root level inside ts) :
    level + sequenceNesting ts ≤ max level (sequenceNesting root) := by
  have deeper {level : Nat} {ts below : List Token} {t : Token} (hm : t ∈ ts)
      (ht : sequenceNesting below + 1 ≤ t.nesting)
      (ih : level + sequenceNesting ts ≤ max level (sequenceNesting root)) :
      level + 1 + sequenceNesting below ≤ max (level + 1) (sequenceNesting root) := by
    have := sequenceNesting_le_iff.mp (Nat.le_refl (sequenceNesting ts)) t hm
    omega
  induction h with
  | root => omega
  | arguments _ hm ih => exact deeper hm (by simp [Token.nesting]) ih
  | interior _ hm ih => exact deeper hm (by simp [Token.nesting]) ih
  | whenTrue _ hm ih => exact deeper hm (by simp [Token.nesting]) ih
  | whenFalse _ hm ih => exact deeper hm (by simp [Token.nesting]) ih

theorem SequenceAt.level_lt {inArguments inside : Bool} {root ts : List Token} {level : Nat}
    {t : Token} (h : SequenceAt inArguments root level inside ts) (hm : t ∈ ts)
    (ht : t.HoldsSequences) : level < sequenceNesting root := by
  have hpos : 0 < t.nesting := by
    cases t with
    | call _ _ | group _ | conditional _ _ =>
      simp only [Token.nesting]
      omega
    | undefined | number _ | text _ | operator _ | name _ =>
      simp [Token.HoldsSequences, isCall, isGroup, isConditional] at ht
  have hle := sequenceNesting_le_iff.mp (Nat.le_refl (sequenceNesting ts)) t hm
  have := h.nesting_le
  omega

/-- A reader of regions that nests at most so deep. -/
def NestsWithin (levels : Nat) (nested : RegionReader) : Prop :=
  ∀ inArguments pos cs, sequenceNesting (nested inArguments pos cs).result ≤ levels

theorem mem_push {before : List Token} {t u : Token} (h : u ∈ push before t) :
    u ∈ before ∨ u = t ∨ u = .operator .notNot := by
  revert h
  unfold push addToken
  split
  · rename_i op previous older
    split
    · simp only [Reported.result_pure, List.mem_cons]
      rintro (rfl | hu)
      · exact .inr (.inr rfl)
      · exact .inl (.inr hu)
    · exact fun hu => .inl hu
    · exact fun hu => .inl hu
    · exact fun hu => .inl hu
    · exact fun hu => .inl (List.mem_cons_of_mem _ hu)
    · split
      · exact fun hu => (List.mem_cons.mp hu).symm.imp id .inl
      · exact fun hu => .inl hu
  · exact fun hu => (List.mem_cons.mp hu).symm.imp id .inl

theorem nesting_push {n : Nat} {before : List Token} {t : Token} (ht : t.nesting ≤ n)
    (h : ∀ u ∈ before, u.nesting ≤ n) : ∀ u ∈ push before t, u.nesting ≤ n := by
  intro u hu
  rcases mem_push hu with hu | rfl | rfl
  · exact h u hu
  · exact ht
  · simp [Token.nesting]

section
variable {levels : Nat} {nested : RegionReader} {inArguments : Bool}

theorem NestsWithin.readBranch (h : NestsWithin levels nested) (branch : Branch) (pos : Nat)
    (cs : List Char) : sequenceNesting (Reckon.readBranch nested branch pos cs).result ≤ levels := by
  rcases @readBranch_cases nested branch pos cs with hzero | hread
  · rw [hzero]
    simp [sequenceNesting, Token.nesting]
  · rw [hread]
    exact h false pos cs

theorem NestsWithin.readLexeme (h : NestsWithin levels nested) {cs rest : List Char} {t : Token}
    {stop : Nat} (hl : Scans nested inArguments cs (.token t stop rest)) :
    t.nesting ≤ levels + 1 := by
  cases hl with
  | wordOperator _ _ _ | name _ _ _ | number | text | symbol _ _ | undefined _ =>
    simp [Token.nesting]
  | call _ _ _ | group => exact Nat.succ_le_succ (h _ _ _)
  | conditional _ =>
    exact Nat.succ_le_succ (Nat.max_le.mpr ⟨h.readBranch _ _ _, h.readBranch _ _ _⟩)

theorem NestsWithin.readRegion (h : NestsWithin levels nested) (pos : Nat) (cs : List Char) :
    sequenceNesting (readRegion nested inArguments [] pos cs).result ≤ levels + 1 := by
  have hend {before : List Token} (hbefore : ∀ t ∈ before, t.nesting ≤ levels + 1) :
      sequenceNesting before.reverse ≤ levels + 1 :=
    sequenceNesting_le_iff.mpr fun t ht => hbefore t (List.mem_reverse.mp ht)
  refine @readRegion_induction nested inArguments
    (fun before _ result => (∀ t ∈ before, t.nesting ≤ levels + 1) →
      sequenceNesting result ≤ levels + 1) ?_ ?_ [] pos cs (by simp)
  · intro before gap _
    exact hend
  · intro before gap c more pos _
    have hscans := @scans_readLexeme nested inArguments pos c more
    split
    · rename_i t stop rest hl
      rw [hl] at hscans
      intro result hresult hbefore
      exact hresult (nesting_push (h.readLexeme hscans) hbefore)
    · intro result hresult
      exact hresult
    · exact hend

end

theorem nestsWithin_readNested (limit levels : Nat) :
    NestsWithin levels (readNested limit levels) := by
  induction levels with
  | zero =>
    intro inArguments pos cs
    simp [readNested, sequenceNesting]
  | succ levels ih =>
    intro inArguments pos cs
    exact ih.readRegion pos cs

theorem wellFormed_readNested (limit : Nat) (inArguments : Bool) (cs : List Char) :
    WellFormed limit inArguments (readNested limit (limit + 1) inArguments 0 cs).result := by
  have hreadable := (readsReadable_readNested limit (limit + 1)).1 inArguments 0 cs
  have hnesting := nestsWithin_readNested limit (limit + 1) inArguments 0 cs
  have htoken {level inside ts t} (h : SequenceAt inArguments _ level inside ts) (hm : t ∈ ts) :=
    (hreadable.of_sequenceAt h).readable t hm
  refine ⟨?_, ?_, ?_, ?_, ?_, ?_, ?_⟩
  · rintro level inside ts h before p o after rfl
    have hprecedes : p.Precedes o := (hreadable.of_sequenceAt h).precedes
    rw [← isSign_iff, ← isSign_iff]
    exact hprecedes
  · intro level inside ts h hm
    have ht := htoken h hm
    simpa only [Token.Readable, forall_const] using ht
  · intro level inside ts h hm
    have ht := htoken h hm
    simpa only [Token.Readable] using ht
  · intro level inside ts s h hm
    have ht := htoken h hm
    simpa only [Token.Readable, IsReference] using ht
  · intro level inside ts s arguments h hm
    have ht := htoken h hm
    simp only [Token.Readable] at ht
    exact ht.1
  · intro level inside ts x h hm
    have ht := htoken h hm
    simp only [Token.Readable] at ht
    exact ⟨isNaN_of_unsigned ht, ht.lt_signWeight⟩
  · intro level inside ts t h hm ht
    have := h.level_lt hm ht
    omega

/-- Whatever the source, as an expression or as arguments, it is read as a well-formed tree. -/
theorem wellFormed_tokenize (limit : Nat) (source : String) :
    WellFormed limit false (tokenize limit source).result ∧
      WellFormed limit true (tokenizeArguments limit source).result :=
  ⟨wellFormed_readNested limit false source.toList, wellFormed_readNested limit true source.toList⟩

end Reckon
