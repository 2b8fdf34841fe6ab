import Reckon.Proofs.CanonicalPieces

/-!
What reading canonical text gives.

Reading takes the text piece by piece. Names are put in lower case, null characters and what is beyond the
limit of nesting are left out, an infinite number becomes a name, and a comma right behind the false branch
of a conditional is lost in that branch.
-/

namespace Reckon

/-- A reader of the pieces of a region inside the one being read. -/
abbrev PieceReader := Bool → List Piece → List Token

/-- The token that a piece is read as. -/
def Token.reread (nested : PieceReader) : Token → Token
  | .number n => if n.isFinite then .number n else .name "inf"
  | .text s => .text (String.ofList (s.toList.filter (· ≠ '\x00')))
  | .name s => .name (foldName s)
  | .call s arguments => .call (foldName s) (nested true (sequencePieces arguments))
  | .group inner => .group (nested false (sequencePieces inner))
  | t => t

/-- The tokens after one more was spelled, which for a double `not` is two marks. -/
def pushSpelled (before : List Token) : Token → List Token
  | .operator .notNot => push (push before (.operator .not)) (.operator .not)
  | t => push before t

/-- The tokens of a branch; an empty one gives zero. -/
def rereadBranch (nested : PieceReader) : List Piece → List Token
  | [] => [.number 0.0]
  | p :: ps => nested false (p :: ps)

/-- What is left when a comma right behind a false branch is lost. -/
def afterComma : List Piece → List Piece
  | [] => []
  | p :: ps => if p.isComma then ps else p :: ps

theorem length_afterComma_le (ps : List Piece) : (afterComma ps).length ≤ ps.length := by
  unfold afterComma
  split
  · exact Nat.le_refl _
  · split
    · exact Nat.le_succ _
    · exact Nat.le_refl _

theorem length_afterColon_le (ps : List Piece) :
    (afterComma (ps.dropWhile (!·.isOtherwise)).tail.tail).length ≤ ps.length := by
  have hdrop := (List.dropWhile_suffix (l := ps) (!·.isOtherwise)).length_le
  have hcomma := length_afterComma_le (ps.dropWhile (!·.isOtherwise)).tail.tail
  simp only [List.length_tail] at hcomma
  omega

/-- The tokens of pieces, given those before in reverse. -/
def rereadRegion (nested : PieceReader) (inArguments : Bool) (before : List Token) :
    List Piece → List Token
  | [] => before.reverse
  | .token .undefined :: rest | .otherwise :: rest =>
    if inArguments then before.reverse
    else rereadRegion nested inArguments (push before .undefined) rest
  | .token t :: rest =>
    rereadRegion nested inArguments (pushSpelled before (t.reread nested)) rest
  | .condition :: rest =>
    let after := (rest.dropWhile (!·.isOtherwise)).tail
    rereadRegion nested inArguments
      (push before (.conditional (rereadBranch nested (rest.takeWhile (!·.isOtherwise)))
        (rereadBranch nested (after.take 1)))) (afterComma after.tail)
termination_by ps => ps.length
decreasing_by
  all_goals simp only [List.length_cons]
  all_goals first | omega | exact Nat.lt_succ_of_le (length_afterColon_le rest)

/-- The tokens of pieces with so many more levels of nesting. -/
def reread : Nat → PieceReader
  | 0, _, _ => []
  | levels + 1, inArguments, ps => rereadRegion (reread levels) inArguments [] ps

/-- What may stand at the end of a region, after its last piece. -/
def IsTail (inArguments : Bool) (ps : List Piece) (tail : List Char) : Prop :=
  tail = [] ∨ tail = [' '] ∨
    (tail = [','] ∧ inArguments = false ∧ ∀ p ∈ ps, ∃ t, p = .token t)

/-- Reading a region with so many levels gives what its pieces are read as. -/
def Rereads (limit levels : Nat) : Prop :=
  ∀ {inArguments : Bool} {ps : List Piece}, Spelled inArguments ps →
    ∀ {gap tail : List Char}, (∀ g ∈ gap, isGap g) → IsTail inArguments ps tail → ∀ pos,
      (readNested limit levels inArguments pos (gap ++ (piecesChars false ps ++ tail))).result =
        reread levels inArguments ps

theorem eq_of_isComma {p : Piece} (h : p.isComma) : p = .token (.operator .comma) := by
  cases p with
  | token t => rw [eq_of_isOperator h]
  | _ => contradiction

theorem piecesChars_blank {p : Piece} (h : p.isComma = false) (ps : List Piece) :
    piecesChars true (p :: ps) = ' ' :: piecesChars false (p :: ps) := by
  rw [piecesChars, piecesChars, h]
  rfl

theorem piecesChars_comma (written : Bool) (ps : List Piece) :
    piecesChars written (.token (.operator .comma) :: ps) = ',' :: piecesChars true ps := by
  cases written <;> rfl

theorem piecesChars_true (ps : List Piece) :
    ∃ gap, (∀ g ∈ gap, isGap g) ∧ piecesChars true ps = gap ++ piecesChars false ps := by
  cases ps with
  | nil => exact ⟨[], by simp, rfl⟩
  | cons p ps =>
    refine ⟨if !p.isComma then [' '] else [], ?_, ?_⟩
    · split <;> simp [isGap]
    · simp [piecesChars]

theorem piecesChars_append (ps qs : List Piece) :
    piecesChars true (ps ++ qs) = piecesChars true ps ++ piecesChars true qs := by
  induction ps with
  | nil => rfl
  | cons p ps ih => simp only [List.cons_append, piecesChars, ih, List.append_assoc]

theorem atSeparator_pieces (ps : List Piece) {tail : List Char} (h : AtSeparator tail) :
    AtSeparator (piecesChars true ps ++ tail) := by
  cases ps with
  | nil => exact h
  | cons p ps =>
    intro c more hc
    cases hcomma : p.isComma with
    | false =>
      rw [piecesChars_blank hcomma, List.cons_append] at hc
      exact .inl (List.cons.inj hc).1.symm
    | true =>
      rw [eq_of_isComma hcomma, piecesChars_comma, List.cons_append] at hc
      exact .inr (List.cons.inj hc).1.symm

theorem Spelled.tail {inArguments : Bool} {p : Piece} {ps : List Piece}
    (h : Spelled inArguments (p :: ps)) : Spelled inArguments ps := by
  cases p <;> simp only [Spelled] at h <;> simp [h]

theorem Spelled.of_append {inArguments : Bool} {ps qs : List Piece}
    (h : Spelled inArguments (ps ++ qs)) : Spelled inArguments qs := by
  induction ps with
  | nil => exact h
  | cons p ps ih => exact ih h.tail

theorem Spelled.takeWhile {inArguments : Bool} {ps : List Piece} (h : Spelled inArguments ps)
    (hinner : ∀ p ∈ ps.takeWhile (!·.isOtherwise), p.Inner) :
    Spelled false (ps.takeWhile (!·.isOtherwise)) := by
  induction ps with
  | nil => trivial
  | cons p ps ih =>
    cases p with
    | otherwise => trivial
    | token t =>
      have htake : (Piece.token t :: ps).takeWhile (!·.isOtherwise) =
          .token t :: ps.takeWhile (!·.isOtherwise) := rfl
      rw [htake] at hinner ⊢
      simp only [Spelled] at h ⊢
      obtain ⟨hcond, hreadable, -, hps⟩ := h
      refine ⟨hcond, hreadable, fun hcomma => ?_, ih hps fun q hq => hinner q (List.mem_cons_of_mem _ hq)⟩
      rw [(hinner _ List.mem_cons_self).2] at hcomma
      contradiction
    | condition =>
      have htake : (Piece.condition :: ps).takeWhile (!·.isOtherwise) =
          .condition :: ps.takeWhile (!·.isOtherwise) := rfl
      rw [htake] at hinner ⊢
      simp only [Spelled] at h ⊢
      obtain ⟨hmore, hhead, hps⟩ := h
      refine ⟨?_, ?_, ih hps fun q hq => hinner q (List.mem_cons_of_mem _ hq)⟩
      · intro q hq
        exact hmore q ((List.takeWhile_prefix _).subset hq)
      · intro q hq
        cases ps with
        | nil => contradiction
        | cons r ps =>
          have hr := hhead r rfl
          rw [List.takeWhile_cons_of_pos (by simp [hr])] at hq
          rw [← Option.some.inj hq]
          exact hr

theorem closed_piece {inArguments : Bool} {p : Piece} {ps : List Piece} (h : Spelled inArguments (p :: ps))
    (hp : p.Inner) : Closed (· ≠ ':') p.chars := by
  cases p with
  | token t =>
    simp only [Spelled] at h
    obtain ⟨hcond, ⟨_, hreadable⟩, -⟩ := h
    exact closed_tokenChars (fun _ _ hc _ => hc) t hreadable (by simp [hcond])
      (fun hq => absurd hq hp.1) (fun _ => by decide)
  | condition => exact .char rfl (by decide) (by decide) (by decide) .nil
  | otherwise => exact hp.elim

theorem closed_blank {inArguments : Bool} {p : Piece} {ps : List Piece}
    (h : Spelled inArguments (p :: ps)) : Closed (· ≠ ' ') p.chars := by
  cases p with
  | token t =>
    simp only [Spelled] at h
    obtain ⟨hcond, ⟨_, hreadable⟩, -⟩ := h
    exact closed_tokenChars (fun _ hc _ _ => hc) t hreadable (by simp [hcond]) (fun _ => by decide)
      (fun _ => by decide)
  | condition => exact .char rfl (by decide) (by decide) (by decide) .nil
  | otherwise => exact .char rfl (by decide) (by decide) (by decide) .nil

theorem closed_pieces {inArguments : Bool} {ps : List Piece} (h : Spelled inArguments ps)
    (hinner : ∀ p ∈ ps, p.Inner) (written : Bool) : Closed (· ≠ ':') (piecesChars written ps) := by
  induction ps generalizing written with
  | nil => exact .nil
  | cons p ps ih =>
    have hps := ih h.tail (fun q hq => hinner q (List.mem_cons_of_mem p hq)) true
    have hgap : Closed (· ≠ ':') (if written && !p.isComma then [' '] else []) := by
      split
      · exact Closed.nil.blank (by decide)
      · exact .nil
    exact hgap.append ((closed_piece h (hinner p List.mem_cons_self)).append hps)

theorem startsToken_piece {inArguments : Bool} {p : Piece} {ps : List Piece}
    (h : Spelled inArguments (p :: ps)) : StartsToken p.chars := by
  cases p with
  | token t =>
    simp only [Spelled] at h
    obtain ⟨-, ⟨_, hreadable⟩, -⟩ := h
    exact startsToken_tokenChars hreadable
  | condition => exact ⟨_, _, rfl, rfl⟩
  | otherwise => exact ⟨_, _, rfl, rfl⟩

theorem Spelled.token_of_comma {inArguments : Bool} {p q : Piece} {ps : List Piece}
    (h : Spelled inArguments (p :: q :: ps)) (hq : q.isComma) : ∃ t, p = .token t := by
  obtain rfl := eq_of_isComma hq
  cases p with
  | token t => exact ⟨t, rfl⟩
  | condition =>
    simp only [Spelled] at h
    have := (h.1 (.token (.operator .comma)) List.mem_cons_self).2
    exact absurd this (by simp [Token.isOperator])
  | otherwise =>
    simp only [Spelled] at h
    obtain ⟨⟨r, more, hr, hcomma, -⟩, -⟩ := h
    rw [← (List.cons.inj hr).1] at hcomma
    contradiction

section
variable {limit levels : Nat} {inArguments : Bool}

theorem readsToken_reread (hlevels : Rereads limit levels) {t : Token} {inside : Bool}
    (h : t.Readable inside) (hcond : isConditional t = false) (hnot : t ≠ .operator .notNot)
    (hundefined : t ≠ .undefined) (hcomma : t.isOperator .comma → inArguments = true)
    {rest : List Char} (hrest : AtSeparator rest) :
    ReadsToken (readNested limit levels) inArguments (tokenChars t ++ rest)
      (t.reread (reread levels)) rest := by
  have hname {s : String} (hs : IsReference s) : IsName (foldName s).toList ∧
      Operator.ofWord? (foldName s).toList = none ∧
      String.ofList (foldName s).toList = foldName s := by
    refine ⟨isName_foldName hs.1, ?_, String.ofList_toList⟩
    rw [toList_foldName hs.1, hs.1.ofWord?_toLower, hs.2]
  cases t with
  | undefined => exact absurd rfl hundefined
  | number x =>
    simp only [Token.Readable] at h
    simp only [Token.reread]
    exact readsToken_number h hrest
  | text s =>
    simp only [Token.reread]
    exact readsToken_text s.toList rest
  | operator op =>
    exact readsToken_symbol (fun hop => hnot (hop ▸ rfl))
      (fun hop => hcomma (by simp [hop, Token.isOperator])) hrest
  | name s =>
    simp only [Token.Readable] at h
    obtain ⟨hs, hword, heq⟩ := hname h
    have := @readsToken_name (readNested limit levels) inArguments _ _ hs hword hrest
    rwa [heq] at this
  | call s arguments =>
    simp only [Token.Readable] at h
    obtain ⟨hs, hword, heq⟩ := hname h.1
    have hclosed := closed_sequenceChars arguments false h.2
    have hnested := fun pos =>
      @hlevels true _ (spelled_sequencePieces h.2) [] [] (by simp) (.inl rfl) pos
    simp only [List.nil_append, List.append_nil, ← sequenceChars_eq h.2] at hnested
    have := @readsToken_call (readNested limit levels) inArguments _ _ _ rest _ hs hword hclosed hnested
    rw [heq] at this
    simpa [tokenChars, Token.reread] using this
  | group inner =>
    simp only [Token.Readable] at h
    have hclosed := (closed_sequenceChars inner false h).padded (p := fun _ => True) trivial
    have hnested := fun pos =>
      @hlevels false _ (spelled_sequencePieces h) [' '] [' '] (by simp [isGap]) (.inr (.inl rfl)) pos
    simp only [← sequenceChars_eq h] at hnested
    have := @readsToken_group (readNested limit levels) inArguments _ _ rest _ hclosed hnested
    simpa [tokenChars, Token.reread] using this
  | conditional whenTrue whenFalse => contradiction

theorem readRegion_plain (hlevels : Rereads limit levels) {t : Token} {inside : Bool}
    (h : t.Readable inside) (hcond : isConditional t = false) (hundefined : t ≠ .undefined)
    (hcomma : t.isOperator .comma → inArguments = true) (before : List Token)
    {gap rest : List Char} (hgap : ∀ g ∈ gap, isGap g) (hrest : AtSeparator rest) (pos : Nat) :
    ∃ stop, (readRegion (readNested limit levels) inArguments before pos
      (gap ++ (tokenChars t ++ rest))).result =
        (readRegion (readNested limit levels) inArguments
          (pushSpelled before (t.reread (reread levels))) stop rest).result := by
  by_cases hnot : t = .operator .notNot
  · subst hnot
    have hfirst := @readsToken_not (readNested limit levels) inArguments ('!' :: rest) (.inr ⟨rest, rfl⟩)
    have hsecond := @readsToken_not (readNested limit levels) inArguments rest (.inl hrest)
    obtain ⟨middle, hfirst⟩ := readRegion_token hfirst hgap before pos
    obtain ⟨stop, hsecond⟩ := @readRegion_token _ _ _ _ [] _ hsecond (by simp)
      (push before (.operator .not)) middle
    rw [List.nil_append] at hsecond
    exact ⟨stop, hfirst.trans hsecond⟩
  · obtain ⟨stop, hread⟩ := readRegion_token
      (readsToken_reread hlevels h hcond hnot hundefined hcomma hrest) hgap before pos
    have hpush : pushSpelled before (t.reread (reread levels)) =
        push before (t.reread (reread levels)) := by
      cases t with
      | operator op =>
        cases op with
        | notNot => exact absurd rfl hnot
        | _ => rfl
      | number x =>
        simp only [Token.reread]
        split <;> rfl
      | _ => rfl
    rw [hpush]
    exact ⟨stop, hread⟩

/-- What follows the false branch of a conditional: a comma at most, then a blank or nothing, then what
is left. -/
theorem exists_afterComma {ps : List Piece} (h : Spelled inArguments ps) {tail : List Char}
    (htail : tail = [] ∨ tail = [' ']) :
    ∃ sep after tail', piecesChars true ps ++ tail = sep ++ after ∧
      (sep = [] ∨ (sep = [','] ∧ ∃ p more, ps = p :: more ∧ p.isComma)) ∧
      (∀ c more, after = c :: more → c = ' ') ∧ (tail' = [] ∨ tail' = [' ']) ∧
      after.tail = piecesChars false (afterComma ps) ++ tail' := by
  have hblank (cs : List Char) : ∀ c more, ' ' :: cs = c :: more → c = ' ' :=
    fun c more hc => (List.cons.inj hc).1.symm
  have hend : (∀ c more, tail = c :: more → c = ' ') ∧ tail.tail = [] := by
    rcases htail with rfl | rfl
    · exact ⟨by simp, rfl⟩
    · exact ⟨hblank [], rfl⟩
  cases ps with
  | nil => exact ⟨[], tail, [], rfl, .inl rfl, hend.1, .inl rfl, hend.2⟩
  | cons p ps =>
    cases hcomma : p.isComma with
    | false =>
      refine ⟨[], ' ' :: (piecesChars false (p :: ps) ++ tail), tail, ?_, .inl rfl, hblank _, htail, ?_⟩
      · rw [piecesChars_blank hcomma]
        rfl
      · rw [afterComma, hcomma]
        rfl
    | true =>
      have hsep : ∃ q more, p :: ps = q :: more ∧ q.isComma := ⟨p, ps, rfl, hcomma⟩
      obtain rfl := eq_of_isComma hcomma
      simp only [Spelled] at h
      rw [piecesChars_comma]
      cases ps with
      | nil => exact ⟨[','], tail, [], rfl, .inr ⟨rfl, hsep⟩, hend.1, .inl rfl, hend.2⟩
      | cons q ps =>
        have hq := (h.2.2.1 rfl).2 q rfl
        refine ⟨[','], ' ' :: (piecesChars false (q :: ps) ++ tail), tail, ?_, .inr ⟨rfl, hsep⟩,
          hblank _, htail, rfl⟩
        rw [piecesChars_blank hq]
        rfl

theorem Spelled.afterComma {ps : List Piece} (h : Spelled inArguments ps) :
    Spelled inArguments (afterComma ps) := by
  unfold Reckon.afterComma
  split
  · trivial
  · split
    · exact h.tail
    · exact h

theorem readBranch_pieces (hlevels : Rereads limit levels) {p : Piece} {ps : List Piece}
    (h : Spelled false (p :: ps)) {tail : List Char} (htail : IsTail false (p :: ps) tail)
    (branch : Branch) (pos : Nat) :
    (readBranch (readNested limit levels) branch pos (piecesChars false (p :: ps) ++ tail)).result =
      rereadBranch (reread levels) (p :: ps) := by
  have hread := @hlevels false _ h [] tail (by simp) htail pos
  obtain ⟨c, more, hc, hgap⟩ := startsToken_piece h
  have hblank : ¬(piecesChars false (p :: ps) ++ tail).all isGap = true := by
    rw [piecesChars, hc]
    simp [hgap]
  rw [readBranch, if_neg hblank]
  exact hread

theorem readsToken_unclosed (hlevels : Rereads limit levels) {ps : List Piece}
    (h : Spelled false ps) (hinner : ∀ p ∈ ps, p.Inner) {tail : List Char}
    (htail : tail = [] ∨ tail = [' ']) :
    ReadsToken (readNested limit levels) inArguments ('?' :: (piecesChars true ps ++ tail))
      (.conditional (rereadBranch (reread levels) ps) [.number 0.0]) [] := by
  cases ps with
  | nil =>
    have hdrop : tail.dropWhile isGap = [] := by rcases htail with rfl | rfl <;> rfl
    refine readsToken_openConditional ?_ fun pos => ?_
    · rw [piecesChars, List.nil_append, hdrop]
      exact .nil
    · rw [piecesChars, List.nil_append, hdrop]
      rfl
  | cons p ps =>
    have hcomma := (hinner p List.mem_cons_self).isComma
    have hstart : StartsToken (piecesChars false (p :: ps) ++ tail) := by
      obtain ⟨c, more, hc, hgap⟩ := startsToken_piece h
      exact ⟨c, _, by rw [piecesChars, hc]; rfl, hgap⟩
    have hdrop : (' ' :: (piecesChars false (p :: ps) ++ tail)).dropWhile isGap =
        piecesChars false (p :: ps) ++ tail := by
      have := hstart.dropWhile []
      rwa [List.append_nil] at this
    have htailClosed : Closed (· ≠ ':') tail := by
      rcases htail with rfl | rfl
      · exact .nil
      · exact Closed.nil.blank (by decide)
    have htail' : IsTail false (p :: ps) tail := htail.elim .inl fun h => .inr (.inl h)
    rw [piecesChars_blank hcomma, List.cons_append]
    refine readsToken_openConditional ?_ fun pos => ?_
    · rw [hdrop]
      exact (closed_pieces h hinner false).append htailClosed
    · rw [hdrop]
      exact readBranch_pieces hlevels h htail' .whenTrue pos

theorem Spelled.singleton {b : Piece} {more : List Piece} (h : Spelled inArguments (b :: more))
    (hcomma : b.isComma = false) (hotherwise : b.isOtherwise = false) : Spelled false [b] := by
  cases b with
  | token t =>
    simp only [Spelled] at h ⊢
    exact ⟨h.1, h.2.1, fun hop => absurd hop (by simpa [Piece.isComma] using hcomma), trivial⟩
  | condition => simp [Spelled]
  | otherwise => contradiction

theorem readsToken_closed (hlevels : Rereads limit levels) {p b : Piece} {ps more : List Piece}
    (htrue : Spelled false (p :: ps)) (hinner : ∀ q ∈ p :: ps, q.Inner)
    (hb : Spelled inArguments (b :: more)) (hcomma : b.isComma = false)
    (hotherwise : b.isOtherwise = false) {tail : List Char} (htail : tail = [] ∨ tail = [' ']) :
    ∃ tail', (tail' = [] ∨ tail' = [' ']) ∧
      ReadsToken (readNested limit levels) inArguments
        ('?' :: (piecesChars true (p :: ps ++ .otherwise :: b :: more) ++ tail))
        (.conditional (rereadBranch (reread levels) (p :: ps)) (rereadBranch (reread levels) [b]))
        (piecesChars false (afterComma more) ++ tail') := by
  obtain ⟨sep, after, tail', htext, hsep, hblank, htail', hresume⟩ := exists_afterComma hb.tail htail
  have hsepTail : IsTail false [b] sep := by
    rcases hsep with hsep | ⟨hsep, q, qs, rfl, hq⟩
    · exact .inl hsep
    · refine .inr (.inr ⟨hsep, rfl, fun r hr => ?_⟩)
      rw [List.mem_singleton.mp hr]
      exact hb.token_of_comma hq
  have hreadTrue := @readBranch_pieces limit levels hlevels _ _ htrue [' '] (.inr (.inl rfl)) .whenTrue
  have hreadFalse := readBranch_pieces hlevels (hb.singleton hcomma hotherwise) hsepTail .whenFalse
  have hsingle : piecesChars false [b] = b.chars := List.append_nil _
  have hstart : StartsToken (piecesChars false (p :: ps)) := by
    obtain ⟨c, cs, hc, hgap⟩ := startsToken_piece htrue
    exact ⟨c, _, by rw [piecesChars, hc]; rfl, hgap⟩
  have hcolon : piecesChars true (.otherwise :: b :: more) =
      ' ' :: ':' :: ' ' :: (b.chars ++ piecesChars true more) := by
    rw [piecesChars_blank rfl, piecesChars, piecesChars_blank hcomma, piecesChars]
    rfl
  have hwhole : '?' :: (piecesChars true (p :: ps ++ .otherwise :: b :: more) ++ tail) =
      '?' :: ' ' :: (piecesChars false (p :: ps) ++ ' ' :: ':' :: ' ' ::
        (b.chars ++ (sep ++ after))) := by
    rw [piecesChars_append, piecesChars_blank (hinner p List.mem_cons_self).isComma, hcolon, ← htext]
    simp only [List.cons_append, List.append_assoc]
  rw [hsingle] at hreadFalse
  refine ⟨tail', htail', ?_⟩
  rw [hwhole, ← hresume]
  exact readsToken_conditional (closed_pieces htrue hinner false) hstart (closed_blank hb)
    (startsToken_piece hb) (hsep.imp id And.left) hblank hreadTrue hreadFalse

theorem readsToken_condition (hlevels : Rereads limit levels) {rest : List Piece}
    (h : Spelled inArguments (.condition :: rest)) {tail : List Char}
    (htail : tail = [] ∨ tail = [' ']) :
    ∃ tail', (tail' = [] ∨ tail' = [' ']) ∧
      ReadsToken (readNested limit levels) inArguments ('?' :: (piecesChars true rest ++ tail))
        (.conditional (rereadBranch (reread levels) (rest.takeWhile (!·.isOtherwise)))
          (rereadBranch (reread levels) ((rest.dropWhile (!·.isOtherwise)).tail.take 1)))
        (piecesChars false (afterComma (rest.dropWhile (!·.isOtherwise)).tail.tail) ++ tail') := by
  simp only [Spelled] at h
  obtain ⟨hinner, hhead, hrest⟩ := h
  have htrue := hrest.takeWhile hinner
  have hsplit := List.takeWhile_append_dropWhile (p := (!·.isOtherwise)) (l := rest)
  cases hafter : rest.dropWhile (!·.isOtherwise) with
  | nil =>
    rw [hafter, List.append_nil] at hsplit
    rw [hsplit] at htrue hinner ⊢
    exact ⟨[], .inl rfl, readsToken_unclosed hlevels htrue hinner htail⟩
  | cons q after =>
    have hq : q = .otherwise := by
      have := List.head_dropWhile_not (!·.isOtherwise) (by simp [hafter]) (l := rest)
      simp only [hafter, List.head_cons] at this
      cases q with
      | otherwise => rfl
      | _ => simp [Piece.isOtherwise] at this
    subst hq
    rw [hafter] at hsplit
    rw [← hsplit] at hrest
    have hcolon := Spelled.of_append hrest
    simp only [Spelled] at hcolon
    obtain ⟨⟨b, more, rfl, hcomma, hotherwise⟩, hb⟩ := hcolon
    cases ha : rest.takeWhile (!·.isOtherwise) with
    | nil =>
      rw [ha] at hsplit
      have := hhead .otherwise (by rw [← hsplit]; rfl)
      contradiction
    | cons p ps =>
      rw [ha] at hsplit htrue hinner
      rw [← hsplit]
      exact readsToken_closed hlevels htrue hinner hb hcomma hotherwise htail

theorem Spelled.afterColon {ps : List Piece} (h : Spelled inArguments ps) :
    Spelled inArguments (Reckon.afterComma (ps.dropWhile (!·.isOtherwise)).tail.tail) := by
  obtain ⟨before, hsplit⟩ := ((List.tail_suffix _).trans (List.tail_suffix _)).trans
    (List.dropWhile_suffix (l := ps) (!·.isOtherwise))
  rw [← hsplit] at h
  exact h.of_append.afterComma

namespace IsTail
variable {p : Piece} {ps : List Piece} {tail : List Char}

theorem of_cons (h : IsTail inArguments (p :: ps) tail) : IsTail inArguments ps tail :=
  h.imp id fun h => h.imp id fun ⟨htail, hin, hall⟩ =>
    ⟨htail, hin, fun q hq => hall q (List.mem_cons_of_mem p hq)⟩

theorem of_condition (h : IsTail inArguments (.condition :: ps) tail) : tail = [] ∨ tail = [' '] := by
  rcases h with h | h | ⟨-, -, hall⟩
  · exact .inl h
  · exact .inr h
  · obtain ⟨t, ht⟩ := hall .condition List.mem_cons_self
    contradiction

theorem atSeparator (h : IsTail inArguments ps tail) : AtSeparator tail := by
  rcases h with rfl | rfl | ⟨rfl, -⟩
  · exact .nil
  · intro c more hc
    exact .inl (List.cons.inj hc).1.symm
  · intro c more hc
    exact .inr (List.cons.inj hc).1.symm

theorem readRegion_nil (h : IsTail inArguments ps tail) {gap : List Char} (hgap : ∀ g ∈ gap, isGap g)
    (before : List Token) (pos : Nat) :
    (readRegion (readNested limit levels) inArguments before pos (gap ++ tail)).result =
      before.reverse := by
  rcases h with rfl | rfl | ⟨rfl, rfl, -⟩
  · rw [List.append_nil]
    exact readRegion_gap hgap before pos
  · refine readRegion_gap ?_ before pos
    intro g hg
    rcases List.mem_append.mp hg with hg | hg
    · exact hgap g hg
    · rw [List.mem_singleton.mp hg]
      rfl
  · exact readRegion_comma hgap before pos

end IsTail

theorem readRegion_strayPiece {c : Char} (hc : c = ':' ∨ c = undefinedMark) {gap : List Char}
    (hgap : ∀ g ∈ gap, isGap g) (before : List Token) (pos : Nat) {rest : List Char}
    {result : List Token} (hrest : ∀ stop, (readRegion (readNested limit levels) inArguments
      (push before .undefined) stop rest).result = result) :
    (readRegion (readNested limit levels) inArguments before pos (gap ++ c :: rest)).result =
      if inArguments then before.reverse else result := by
  cases inArguments with
  | true => exact readRegion_stray hc hgap before pos _
  | false =>
    obtain ⟨stop, hread⟩ := readRegion_token
      (@readsToken_stray (readNested limit levels) _ hc rest) hgap before pos
    exact hread.trans (hrest stop)

theorem readRegion_pieces (hlevels : Rereads limit levels) {ps : List Piece} {before : List Token}
    {gap tail : List Char} (h : Spelled inArguments ps) (hgap : ∀ g ∈ gap, isGap g)
    (htail : IsTail inArguments ps tail) (pos : Nat) :
    (readRegion (readNested limit levels) inArguments before pos
      (gap ++ (piecesChars false ps ++ tail))).result =
        rereadRegion (reread levels) inArguments before ps := by
  induction hlen : ps.length using Nat.strong_induction_on generalizing ps before gap tail pos with
  | _ n ih =>
    subst hlen
    cases ps with
    | nil =>
      rw [rereadRegion]
      exact htail.readRegion_nil hgap before pos
    | cons p rest =>
      have htext : piecesChars false (p :: rest) ++ tail =
          p.chars ++ (piecesChars true rest ++ tail) := by
        simp [piecesChars]
      -- One more token was read, and the rest of the pieces follows.
      have hnext (before : List Token) (stop : Nat) :
          (readRegion (readNested limit levels) inArguments before stop
            (piecesChars true rest ++ tail)).result =
              rereadRegion (reread levels) inArguments before rest := by
        obtain ⟨gap', hgap', hblank⟩ := piecesChars_true rest
        rw [hblank, List.append_assoc]
        exact ih rest.length (Nat.lt_succ_self _) h.tail hgap' htail.of_cons stop rfl
      rw [htext]
      cases p with
      | otherwise =>
        rw [rereadRegion]
        exact readRegion_strayPiece (.inl rfl) hgap before pos (hnext _)
      | condition =>
        obtain ⟨tail', htail', hread⟩ := readsToken_condition hlevels h htail.of_condition
        obtain ⟨stop, hread⟩ := readRegion_token hread hgap before pos
        rw [rereadRegion]
        refine hread.trans ?_
        exact @ih _ (Nat.lt_succ_of_le (length_afterColon_le rest)) _ _ [] tail' h.tail.afterColon
          (by simp) (htail'.elim .inl fun h => .inr (.inl h)) stop rfl
      | token t =>
        simp only [Spelled] at h
        obtain ⟨hcond, ⟨inside, hreadable⟩, hcomma, -⟩ := h
        by_cases hundefined : t = .undefined
        · subst hundefined
          rw [rereadRegion]
          exact readRegion_strayPiece (.inr rfl) hgap before pos (hnext _)
        · obtain ⟨stop, hread⟩ := readRegion_plain hlevels hreadable hcond hundefined
            (fun h => (hcomma h).1) before hgap (atSeparator_pieces rest htail.atSeparator) pos
          rw [rereadRegion]
          · exact hread.trans (hnext _ stop)
          · exact hundefined

theorem Token.Precedes.reread {p t : Token} (h : p.Precedes t) (nested : PieceReader) :
    p.Precedes (t.reread nested) := by
  cases t with
  | operator op => exact h
  | number x =>
    simp only [Token.reread]
    split <;> cases p <;> trivial
  | _ => cases p <;> trivial

theorem Token.Precedes.of_reread {p t : Token} (h : p.Precedes t) (nested : PieceReader) :
    (p.reread nested).Precedes t := by
  cases p with
  | operator op => exact h
  | number x =>
    simp only [Token.reread]
    split <;> trivial
  | _ => cases t <;> trivial

theorem pushSpelled_reread {t : Token} {before : List Token}
    (hbefore : ∀ p ∈ before.head?, p.Precedes t) (nested : PieceReader) :
    pushSpelled before (t.reread nested) = t.reread nested :: before := by
  have hpush := push_of_precedes fun p hp => (hbefore p hp).reread nested
  cases t with
  | operator op =>
    cases op with
    | notNot => exact push_not_not hbefore
    | _ => exact hpush
  | number x =>
    by_cases hf : x.isFinite
    · simp only [Token.reread, hf, if_true] at hpush ⊢
      exact hpush
    · simp only [Token.reread, hf] at hpush ⊢
      exact hpush
  | _ => exact hpush

/-- A token that may follow the ones before is kept. -/
theorem rereadRegion_token {t : Token} (h : t.Readable inArguments) (hcond : isConditional t = false)
    {before : List Token} (hbefore : ∀ p ∈ before.head?, p.Precedes t) (nested : PieceReader)
    (ps : List Piece) :
    rereadRegion nested inArguments before (t.pieces ++ ps) =
      rereadRegion nested inArguments (t.reread nested :: before) ps := by
  rw [pieces_of_not_conditional hcond, List.singleton_append]
  by_cases hundefined : t = .undefined
  · subst hundefined
    simp only [Token.Readable] at h
    subst h
    rw [rereadRegion, if_neg Bool.false_ne_true, push_of_precedes hbefore]
    rfl
  · rw [rereadRegion]
    · rw [pushSpelled_reread hbefore]
    · exact hundefined

end

/-- Every region is read piece by piece. -/
theorem rereads (limit levels : Nat) : Rereads limit levels := by
  induction levels with
  | zero =>
    intro inArguments ps _ gap tail _ _ pos
    cases ps <;> rfl
  | succ levels ih =>
    intro inArguments ps h gap tail hgap htail pos
    exact readRegion_pieces ih h hgap htail pos

/-- What the canonical text of a sequence is read as. -/
theorem tokenize_canonical (limit : Nat) {ts : List Token} (h : AllReadable false ts) :
    (tokenize limit (describe ts)).result = reread (limit + 1) false (sequencePieces ts) := by
  have := @rereads limit (limit + 1) false _ (spelled_sequencePieces h) [] [] (by simp) (.inl rfl) 0
  rw [List.nil_append, List.append_nil, ← sequenceChars_eq h] at this
  rw [tokenize, describe, String.toList_ofList]
  exact this

end Reckon
