import Reckon.Proofs.CanonicalReading

/-!
Canonical text and the texts of its pieces.

A canonical text is equal to another one exactly if the texts of their pieces are, since no piece but a
comma has a blank or a comma outside literals and parentheses.
-/

namespace Reckon

/-- The text up to the first blank or comma outside literals and parentheses, and the rest. -/
def cutToken (q : Quotation) (depth : Nat) : List Char → List Char × List Char
  | [] => ([], [])
  | c :: cs =>
    if q.isPlain c && depth == 0 && (c == ' ' || c == ',') then ([], c :: cs)
    else (c :: (cutToken (q.feed c) (depthAfter q depth c) cs).1,
      (cutToken (q.feed c) (depthAfter q depth c) cs).2)

/-- A text of one token, as far as cutting is concerned. -/
abbrev ClosedToken (w : List Char) : Prop := Closed (fun c => c ≠ ' ' ∧ c ≠ ',') w

theorem cutToken_append {w rest : List Char} (hw : ClosedToken w) (hrest : AtSeparator rest) :
    cutToken .outside 0 (w ++ rest) = (w, rest) := by
  have hkeeps : Keeps (fun c => c ≠ ' ' ∧ c ≠ ',') (fun c r => (c :: r.1, r.2)) cutToken := by
    intro q depth c cs h
    have hne : ¬(q.isPlain c && depth == 0 && (c == ' ' || c == ',')) = true := by
      simp only [Bool.and_eq_true, Bool.or_eq_true, beq_iff_eq]
      rintro ⟨⟨hq, hd⟩, hc⟩
      rcases (h hq hd).2 with rfl | ⟨hblank, hcomma⟩
      · exact absurd hc (by decide)
      · exact hc.elim hblank hcomma
    rw [cutToken, if_neg hne]
  have hfold (w : List Char) (r : List Char × List Char) :
      w.foldr (fun c r => (c :: r.1, r.2)) r = (w ++ r.1, r.2) := by
    induction w with
    | nil => rfl
    | cons c w ih => rw [List.foldr_cons, ih, List.cons_append]
  have hstop : cutToken .outside 0 rest = ([], rest) := by
    cases rest with
    | nil => rfl
    | cons c more => rcases hrest c more rfl with rfl | rfl <;> rfl
  rw [hkeeps.closed hw (fun _ _ h => h), hfold, hstop, List.append_nil]

/-- Texts of one token followed by separators are told apart by what stands before the separator. -/
theorem append_inj_of_closed {v w r s : List Char} (hv : ClosedToken v) (hw : ClosedToken w)
    (hr : AtSeparator r) (hs : AtSeparator s) (h : v ++ r = w ++ s) : v = w ∧ r = s := by
  have hcut := cutToken_append hv hr
  rw [h, cutToken_append hw hs] at hcut
  exact ⟨(Prod.mk.inj hcut).1.symm, (Prod.mk.inj hcut).2.symm⟩

theorem ClosedToken.ne_comma {c : Char} {cs : List Char} (h : ClosedToken (c :: cs)) : c ≠ ',' := by
  rintro rfl
  have hcut := cutToken_append h .nil
  have hstop : cutToken .outside 0 (',' :: cs ++ []) = ([], ',' :: cs ++ []) := rfl
  rw [hstop] at hcut
  exact absurd (Prod.mk.inj hcut).1 (by simp)

theorem closedToken_tokenChars {t : Token} {inArguments : Bool} (h : t.Readable inArguments)
    (hcond : isConditional t = false) (hcomma : t.isOperator .comma = false) :
    ClosedToken (tokenChars t) :=
  closed_tokenChars (fun _ hblank _ hcomma => ⟨hblank, hcomma⟩) t h (by simp [hcond])
    (fun _ => ⟨by decide, by decide⟩) (by simp [hcomma])

section
variable {inArguments inside : Bool}

theorem closedToken_piece {p : Piece} {ps : List Piece} (h : Spelled inArguments (p :: ps))
    (hcomma : p.isComma = false) : ClosedToken p.chars := by
  cases p with
  | token t =>
    simp only [Spelled] at h
    obtain ⟨hcond, ⟨_, hreadable⟩, -⟩ := h
    exact closedToken_tokenChars hreadable hcond hcomma
  | condition => exact .char rfl (by decide) (by decide) ⟨by decide, by decide⟩ .nil
  | otherwise => exact .char rfl (by decide) (by decide) ⟨by decide, by decide⟩ .nil

theorem isComma_of_chars {p : Piece} {ps : List Piece} (h : Spelled inArguments (p :: ps))
    {cs : List Char} (hchars : p.chars = ',' :: cs) : p.isComma = true := by
  cases hcomma : p.isComma with
  | true => rfl
  | false =>
    have := closedToken_piece h hcomma
    rw [hchars] at this
    exact absurd rfl this.ne_comma

theorem isComma_congr {p q : Piece} {ps qs : List Piece} (hp : Spelled inArguments (p :: ps))
    (hq : Spelled inside (q :: qs)) (h : p.chars = q.chars) : p.isComma = q.isComma := by
  cases hcomma : p.isComma with
  | true =>
    rw [eq_of_isComma hcomma] at h
    exact (isComma_of_chars hq h.symm).symm
  | false =>
    cases hcomma' : q.isComma with
    | false => rfl
    | true =>
      rw [eq_of_isComma hcomma'] at h
      rw [isComma_of_chars hp h] at hcomma
      contradiction

theorem piecesChars_congr {ps qs : List Piece} (hp : Spelled inArguments ps) (hq : Spelled inside qs)
    (h : ps.map Piece.chars = qs.map Piece.chars) (written : Bool) :
    piecesChars written ps = piecesChars written qs := by
  induction ps generalizing qs written with
  | nil =>
    rw [List.map_nil] at h
    rw [List.map_eq_nil_iff.mp h.symm]
  | cons p ps ih =>
    cases qs with
    | nil => contradiction
    | cons q qs =>
      obtain ⟨hchars, hrest⟩ := List.cons.inj h
      have hcomma := isComma_congr hp hq hchars
      have hmore := ih hp.tail hq.tail hrest true
      rw [piecesChars, piecesChars, hcomma, hchars, hmore]

theorem isComma_of_piecesChars {p q : Piece} {ps qs : List Piece} (hq : Spelled inside (q :: qs))
    {written : Bool}
    (h : piecesChars written (p :: ps) = piecesChars written (q :: qs)) (hcomma : p.isComma) :
    q.isComma = true := by
  rw [eq_of_isComma hcomma, piecesChars_comma] at h
  cases hcomma' : q.isComma with
  | true => rfl
  | false =>
    obtain ⟨c, cs, hc, -⟩ := startsToken_piece hq
    have hclosed := closedToken_piece hq hcomma'
    rw [hc] at hclosed
    cases written with
    | true =>
      rw [piecesChars_blank hcomma'] at h
      exact absurd (List.cons.inj h).1 (by decide)
    | false =>
      rw [piecesChars, hc] at h
      exact absurd (List.cons.inj h).1.symm hclosed.ne_comma

/-- A text is cut into the texts of its pieces in one way. -/
theorem piecesChars_inj {ps qs : List Piece} (hp : Spelled inArguments ps) (hq : Spelled inside qs)
    {written : Bool} (h : piecesChars written ps = piecesChars written qs) :
    ps.map Piece.chars = qs.map Piece.chars := by
  have hne {inArguments : Bool} {p : Piece} {ps : List Piece} (hp : Spelled inArguments (p :: ps))
      (written : Bool) : piecesChars written (p :: ps) ≠ [] := by
    obtain ⟨c, cs, hc, -⟩ := startsToken_piece hp
    rw [piecesChars, hc]
    simp
  induction ps generalizing qs written with
  | nil =>
    cases qs with
    | nil => rfl
    | cons q qs => exact absurd h.symm (hne hq written)
  | cons p ps ih =>
    cases qs with
    | nil => exact absurd h (hne hp written)
    | cons q qs =>
      have hps := hp.tail
      have hqs := hq.tail
      rw [List.map_cons, List.map_cons]
      cases hcomma : p.isComma with
      | true =>
        have hcomma' := isComma_of_piecesChars hq h hcomma
        obtain rfl := eq_of_isComma hcomma
        obtain rfl := eq_of_isComma hcomma'
        rw [piecesChars_comma, piecesChars_comma] at h
        rw [ih hps hqs (List.cons.inj h).2]
      | false =>
        have hcomma' : q.isComma = false := by
          cases hcomma' : q.isComma with
          | false => rfl
          | true =>
            rw [isComma_of_piecesChars hp h.symm hcomma'] at hcomma
            contradiction
        rw [piecesChars, piecesChars, hcomma, hcomma', List.append_cancel_left_eq] at h
        have hseparator (ps : List Piece) : AtSeparator (piecesChars true ps) := by
          have := atSeparator_pieces ps .nil
          rwa [List.append_nil] at this
        obtain ⟨hchars, hrest⟩ := append_inj_of_closed (closedToken_piece hp hcomma)
          (closedToken_piece hq hcomma') (hseparator ps) (hseparator qs) h
        rw [hchars, ih hps hqs hrest]

end

/-- The texts of the pieces of a sequence. -/
def sequenceTexts (ts : List Token) : List (List Char) := (sequencePieces ts).map Piece.chars

/-- The texts of the pieces of a branch. -/
def branchTexts (ts : List Token) : List (List Char) := (branchPieces ts).map Piece.chars

/-- Two sequences have the same text exactly if their pieces have the same texts. -/
theorem sequenceChars_inj {inArguments inside : Bool} {ts us : List Token}
    (hts : AllReadable inArguments ts) (hus : AllReadable inside us) :
    sequenceChars false ts = sequenceChars false us ↔ sequenceTexts ts = sequenceTexts us := by
  rw [sequenceChars_eq hts, sequenceChars_eq hus]
  exact ⟨piecesChars_inj (spelled_sequencePieces hts) (spelled_sequencePieces hus),
    fun h => piecesChars_congr (spelled_sequencePieces hts) (spelled_sequencePieces hus) h false⟩

theorem sequenceTexts_cons (t : Token) (ts : List Token) :
    sequenceTexts (t :: ts) = branchTexts [t] ++ sequenceTexts ts := by
  rw [sequenceTexts, sequencePieces_cons, List.map_append]
  rfl

theorem sequenceTexts_append (ts us : List Token) :
    sequenceTexts (ts ++ us) = sequenceTexts ts ++ sequenceTexts us := by
  induction ts with
  | nil => rfl
  | cons t ts ih => rw [List.cons_append, sequenceTexts_cons, sequenceTexts_cons, ih, List.append_assoc]

theorem branchTexts_token {t : Token} (h : isConditional t = false) :
    branchTexts [t] = [tokenChars t] := by
  rw [branchTexts, branchPieces, pieces_of_not_conditional h]
  rfl

theorem branchTexts_conditional (whenTrue whenFalse : List Token) :
    branchTexts [.conditional whenTrue whenFalse] =
      ['?'] :: (branchTexts whenTrue ++ [':'] :: branchTexts whenFalse) := by
  simp [branchTexts, branchPieces, Token.pieces, Piece.chars]

theorem zeroChars : tokenChars (.number 0.0) = ['0'] := by decide +kernel

theorem readable_zero (inArguments : Bool) : (Token.number 0.0).Readable inArguments := by
  simp only [Token.Readable, Unsigned]
  decide +kernel

/-- Finite numbers are told apart by their texts. -/
theorem eq_of_numberText {x y : Float} (hx : Unsigned x) (hfx : x.isFinite) (hy : Unsigned y)
    (hfy : y.isFinite) (h : numberText x = numberText y) : x = y := by
  obtain ⟨stop, hread⟩ := readNumeral_numberText hx hfx .nil 0
  obtain ⟨stop', hread'⟩ := readNumeral_numberText hy hfy .nil 0
  rw [h, hread'] at hread
  exact (Token.number.inj (Lexeme.token.inj hread).1).symm

/-- Only an empty group is written as one. -/
theorem eq_nil_of_groupChars {inner : List Token} {inArguments : Bool}
    (h : AllReadable inArguments inner) (heq : tokenChars (.group inner) = tokenChars (.group [])) :
    inner = [] := by
  cases inner with
  | nil => rfl
  | cons v rest =>
    simp only [AllReadable] at h
    obtain ⟨d, ds, hd, -⟩ := startsToken_tokenChars h.1
    have hempty : sequenceChars false [] = [] := rfl
    rw [tokenChars, tokenChars, sequenceChars_cons h.1, hd, hempty] at heq
    have hlength := congrArg List.length heq
    simp at hlength
    omega

/-- A name begins like neither an undefined token, nor a zero, nor a group. -/
theorem foldName_first_ne {s : String} (hs : IsName s.toList) :
    ∃ d ds, (foldName s).toList = d :: ds ∧ d ≠ undefinedMark ∧ d ≠ '0' ∧ d ≠ '(' := by
  obtain ⟨d, ds, hd, hstart⟩ := (isName_foldName hs).exists_cons
  refine ⟨d, ds, hd, ?_, ?_, ?_⟩ <;>
    · rintro rfl
      exact absurd hstart (by decide)

/-- Undefined tokens, zeros and empty groups are the only tokens that are written as they are. -/
theorem eq_of_tokenChars {t u : Token} {inArguments : Bool} (h : t.Readable inArguments)
    (hu : u = .undefined ∨ u = .number 0.0 ∨ u = .group []) (heq : tokenChars t = tokenChars u) :
    t = u := by
  obtain ⟨c, cs, hchars, hc⟩ : ∃ c cs, tokenChars u = c :: cs ∧
      (c = undefinedMark ∧ u = .undefined ∨ c = '0' ∧ u = .number 0.0 ∨ c = '(' ∧ u = .group []) := by
    rcases hu with rfl | rfl | rfl
    · exact ⟨_, _, rfl, .inl ⟨rfl, rfl⟩⟩
    · exact ⟨_, _, zeroChars, .inr (.inl ⟨rfl, rfl⟩)⟩
    · exact ⟨_, _, rfl, .inr (.inr ⟨rfl, rfl⟩)⟩
  have hfirst {d : Char} {ds : List Char} (ht : tokenChars t = d :: ds) : d = c := by
    rw [ht, hchars] at heq
    exact (List.cons.inj heq).1
  have hother {d : Char} {ds : List Char} (ht : tokenChars t = d :: ds) :
      ¬(d ≠ undefinedMark ∧ d ≠ '0' ∧ d ≠ '(') := by
    rintro ⟨hundefined, hzero, hgroup⟩
    rcases hc with ⟨rfl, -⟩ | ⟨rfl, -⟩ | ⟨rfl, -⟩
    · exact hundefined (hfirst ht)
    · exact hzero (hfirst ht)
    · exact hgroup (hfirst ht)
  cases t with
  | undefined =>
    rcases hc with ⟨-, rfl⟩ | ⟨rfl, -⟩ | ⟨rfl, -⟩
    · rfl
    · exact absurd (hfirst rfl) (by decide)
    · exact absurd (hfirst rfl) (by decide)
  | number x =>
    simp only [Token.Readable] at h
    by_cases hf : x.isFinite
    · obtain ⟨d, ds, htext, hdigit, -⟩ := numberText_eq_cons h hf
      have hd := hfirst htext
      rcases hc with ⟨rfl, -⟩ | ⟨-, rfl⟩ | ⟨rfl, -⟩
      · exact absurd hdigit (by rw [hd]; decide)
      · have hzero := readable_zero false
        simp only [Token.Readable] at hzero
        rw [eq_of_numberText h hf hzero (by decide +kernel) heq]
      · exact absurd hdigit (by rw [hd]; decide)
    · exact absurd (by decide) (hother (numberText_infinite h hf))
  | text s => exact absurd (by decide) (hother rfl)
  | operator op => cases op <;> exact absurd (by decide) (hother rfl)
  | name s =>
    simp only [Token.Readable] at h
    obtain ⟨d, ds, hd, hne⟩ := foldName_first_ne h.1
    exact absurd hne (hother hd)
  | call s arguments =>
    simp only [Token.Readable] at h
    obtain ⟨d, ds, hd, hne⟩ := foldName_first_ne h.1.1
    exact absurd hne (hother (by rw [tokenChars, hd]; rfl))
  | group inner =>
    simp only [Token.Readable] at h
    rcases hc with ⟨rfl, -⟩ | ⟨rfl, -⟩ | ⟨-, rfl⟩
    · exact absurd (hfirst rfl) (by decide)
    · exact absurd (hfirst rfl) (by decide)
    · rw [eq_nil_of_groupChars h heq]
  | conditional whenTrue whenFalse => exact absurd (by decide) (hother rfl)

end Reckon
