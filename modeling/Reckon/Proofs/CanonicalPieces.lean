import Reckon.Proofs.LexemeReading
import Reckon.Proofs.TokenTree

/-!
Canonical text as pieces.

A piece is a token other than a conditional, or one of the two marks of a conditional. Reading canonical
text again takes piece by piece. The true branch then ends at the first colon and the false branch is one
piece, which is right for a branch of one piece and wrong for a conditional as a branch by itself.
-/

namespace Reckon

/-- A token without branches, or a mark of a conditional. -/
inductive Piece where
  | token (t : Token)
  | condition
  | otherwise

namespace Piece

/-- The text of a piece. -/
def chars : Piece → List Char
  | token t => tokenChars t
  | condition => ['?']
  | otherwise => [':']

/-- Whether a piece is written right behind the one before. -/
def isComma : Piece → Bool
  | token t => t.isOperator .comma
  | _ => false

/-- Whether a piece ends a true branch. -/
def isOtherwise : Piece → Bool
  | otherwise => true
  | _ => false

/-- Whether a piece may stand between the marks of a conditional. -/
def Inner : Piece → Prop
  | token t => ¬t.IsQualified ∧ t.isOperator .comma = false
  | condition => True
  | otherwise => False

theorem Inner.not_isOtherwise {p : Piece} (h : p.Inner) : (!p.isOtherwise) = true := by
  cases p with
  | otherwise => exact h.elim
  | _ => rfl

theorem Inner.isComma {p : Piece} (h : p.Inner) : p.isComma = false := by
  cases p with
  | token t => exact h.2
  | condition => rfl
  | otherwise => rfl

end Piece

mutual

/-- The pieces of a token. -/
def Token.pieces : Token → List Piece
  | .conditional whenTrue whenFalse =>
    .condition :: (branchPieces whenTrue ++ .otherwise :: branchPieces whenFalse)
  | t => [.token t]

/-- The pieces of a branch, which is a group unless it is a single token. -/
def branchPieces : List Token → List Piece
  | [t] => t.pieces
  | ts => [.token (.group ts)]

end

/-- The pieces of a sequence. -/
def sequencePieces (ts : List Token) : List Piece := ts.flatMap Token.pieces

/-- The text of pieces, with a blank before the first if something is already written. -/
def piecesChars (written : Bool) : List Piece → List Char
  | [] => []
  | p :: rest => (if written && !p.isComma then [' '] else []) ++ (p.chars ++ piecesChars true rest)

theorem pieces_of_not_conditional {t : Token} (h : isConditional t = false) :
    t.pieces = [.token t] := by
  cases t with
  | conditional _ _ => contradiction
  | _ => rfl

theorem branchPieces_of_length_ne {ts : List Token} (h : ts.length ≠ 1) :
    branchPieces ts = [.token (.group ts)] := by
  cases ts with
  | nil => rfl
  | cons t rest =>
    cases rest with
    | nil => exact absurd rfl h
    | cons u us => rfl

theorem sequencePieces_cons (t : Token) (ts : List Token) :
    sequencePieces (t :: ts) = t.pieces ++ sequencePieces ts := rfl

/-- The pieces of a branch up to the first colon. -/
def openPieces : List Token → List Piece
  | [.conditional whenTrue _] => .condition :: openPieces whenTrue
  | ts => branchPieces ts

/-- The pieces of a branch from the first colon on. -/
def closingPieces : List Token → List Piece
  | [.conditional whenTrue whenFalse] =>
    closingPieces whenTrue ++ .otherwise :: branchPieces whenFalse
  | _ => []

/-- Whether a conditional is the only token. -/
def SoleConditional (ts : List Token) : Prop :=
  ∃ whenTrue whenFalse, ts = [.conditional whenTrue whenFalse]

theorem closingPieces_of_not_sole {ts : List Token} (h : ¬SoleConditional ts) :
    closingPieces ts = [] :=
  closingPieces.eq_2 ts fun a b hts => h ⟨a, b, hts⟩

theorem branchPieces_eq (ts : List Token) : branchPieces ts = openPieces ts ++ closingPieces ts := by
  induction ts using openPieces.induct with
  | case1 whenTrue whenFalse ih =>
    simp only [branchPieces, Token.pieces, openPieces, closingPieces, ih, List.cons_append,
      List.append_assoc]
  | case2 ts hts =>
    rw [openPieces.eq_2 ts hts, closingPieces.eq_2 ts hts, List.append_nil]

theorem length_of_not_sole {ts : List Token} (hsole : ¬SoleConditional ts) :
    (∃ t, ts = [t] ∧ isConditional t = false) ∨ ts.length ≠ 1 := by
  by_cases hlen : ts.length = 1
  · obtain ⟨t, rfl⟩ := List.length_eq_one_iff.mp hlen
    cases t with
    | conditional _ _ => exact absurd ⟨_, _, rfl⟩ hsole
    | _ => exact .inl ⟨_, rfl, rfl⟩
  · exact .inr hlen

/-- A branch that is no conditional by itself is one piece. -/
theorem exists_piece {ts : List Token} (h : AllReadable false ts) (hsole : ¬SoleConditional ts) :
    ∃ t, branchPieces ts = [.token t] ∧ t.Readable false ∧ isConditional t = false ∧
      (¬SoleQualified ts → ¬t.IsQualified) := by
  rcases length_of_not_sole hsole with ⟨t, rfl, hcond⟩ | hlen
  · simp only [AllReadable] at h
    exact ⟨t, pieces_of_not_conditional hcond, h.1, hcond, id⟩
  · exact ⟨.group ts, branchPieces_of_length_ne hlen, by simpa only [Token.Readable] using h, rfl,
      fun _ => id⟩

theorem isComma_of_readable {t : Token} (h : t.Readable false) : t.isOperator .comma = false := by
  cases t with
  | operator op =>
    simp only [Token.Readable] at h
    cases op with
    | comma => exact absurd (h rfl) (by simp)
    | _ => rfl
  | _ => rfl

theorem inner_of_mem_openPieces {ts : List Token} (h : AllReadable false ts)
    (hqualified : ¬SoleQualified ts) : ∀ p ∈ openPieces ts, p.Inner := by
  induction ts using openPieces.induct with
  | case1 whenTrue whenFalse ih =>
    simp only [AllReadable, Token.Readable] at h
    intro p hp
    rw [openPieces] at hp
    rcases List.mem_cons.mp hp with rfl | hp
    · trivial
    · exact ih h.1.1 h.1.2.1 p hp
  | case2 ts hts =>
    intro p hp
    rw [openPieces.eq_2 ts hts] at hp
    obtain ⟨t, ht, hreadable, -, htQualified⟩ := exists_piece h fun ⟨a, b, heq⟩ => hts a b heq
    rw [ht] at hp
    rw [List.mem_singleton.mp hp]
    exact ⟨htQualified hqualified, isComma_of_readable hreadable⟩

theorem closingPieces_cases (ts : List Token) :
    closingPieces ts = [] ∨ ∃ ps, closingPieces ts = .otherwise :: ps := by
  induction ts using openPieces.induct with
  | case1 whenTrue whenFalse ih =>
    rw [closingPieces]
    rcases ih with h | ⟨ps, h⟩
    · exact .inr ⟨branchPieces whenFalse, by rw [h]; rfl⟩
    · exact .inr ⟨ps ++ .otherwise :: branchPieces whenFalse, by rw [h]; rfl⟩
  | case2 ts hts => exact .inl (closingPieces.eq_2 ts hts)

/-- The true branch that is found, and what is left after it. -/
theorem span_openPieces {ts : List Token} (h : ∀ p ∈ openPieces ts, p.Inner) (ps : List Piece) :
    (branchPieces ts ++ .otherwise :: ps).takeWhile (!·.isOtherwise) = openPieces ts ∧
      (branchPieces ts ++ .otherwise :: ps).dropWhile (!·.isOtherwise) =
        closingPieces ts ++ .otherwise :: ps := by
  have hopen : ∀ p ∈ openPieces ts, (!p.isOtherwise) = true := fun p hp => (h p hp).not_isOtherwise
  obtain ⟨qs, hqs⟩ : ∃ qs, closingPieces ts ++ .otherwise :: ps = .otherwise :: qs := by
    rcases closingPieces_cases ts with hc | ⟨cs, hc⟩
    · exact ⟨ps, by rw [hc]; rfl⟩
    · exact ⟨cs ++ .otherwise :: ps, by rw [hc]; rfl⟩
  rw [branchPieces_eq, List.append_assoc, hqs, List.takeWhile_append_of_pos hopen,
    List.dropWhile_append_of_pos hopen]
  exact ⟨List.append_nil _, rfl⟩

theorem exists_branchPieces {ts : List Token} (h : AllReadable false ts) :
    ∃ p ps, branchPieces ts = p :: ps ∧ p.isComma = false ∧ p.isOtherwise = false := by
  by_cases hsole : SoleConditional ts
  · obtain ⟨whenTrue, whenFalse, rfl⟩ := hsole
    exact ⟨.condition, _, rfl, rfl, rfl⟩
  · obtain ⟨t, ht, hreadable, -, -⟩ := exists_piece h hsole
    exact ⟨.token t, [], ht, isComma_of_readable hreadable, rfl⟩

/-- Pieces that are read one by one. A comma stands behind a token, a mark of a conditional before
something else, and the text before a colon has no other colon. -/
def Spelled (inArguments : Bool) : List Piece → Prop
  | [] => True
  | .token t :: rest =>
    isConditional t = false ∧ (∃ inArguments, t.Readable inArguments) ∧
      (t.isOperator .comma → inArguments = true ∧ ∀ p ∈ rest.head?, p.isComma = false) ∧
      Spelled inArguments rest
  | .condition :: rest =>
    (∀ p ∈ rest.takeWhile (!·.isOtherwise), p.Inner) ∧ (∀ p ∈ rest.head?, p.isOtherwise = false) ∧
      Spelled inArguments rest
  | .otherwise :: rest =>
    (∃ p ps, rest = p :: ps ∧ p.isComma = false ∧ p.isOtherwise = false) ∧ Spelled inArguments rest

mutual

theorem Token.spelled_pieces : (t : Token) → {inArguments : Bool} → t.Readable inArguments →
    {inside : Bool} → {ps : List Piece} →
      (t.isOperator .comma → inside = true ∧ ∀ p ∈ ps.head?, p.isComma = false) →
      Spelled inside ps → Spelled inside (t.pieces ++ ps)
  | .conditional whenTrue whenFalse, _, h, _, ps, _, hps => by
    simp only [Token.Readable] at h
    obtain ⟨htrue, hqualified, hfalse⟩ := h
    obtain ⟨p, more, hp, hcomma, hotherwise⟩ := exists_branchPieces hfalse
    obtain ⟨q, more', hq, -, hotherwise'⟩ := exists_branchPieces htrue
    simp only [Token.pieces, List.cons_append, List.append_assoc]
    simp only [Spelled]
    refine ⟨?_, ?_, spelled_branchPieces whenTrue htrue ?_⟩
    · rw [(span_openPieces (inner_of_mem_openPieces htrue hqualified) _).1]
      exact inner_of_mem_openPieces htrue hqualified
    · rw [hq]
      intro r hr
      rwa [← Option.some.inj hr]
    · simp only [Spelled]
      exact ⟨⟨p, more ++ ps, by rw [hp]; rfl, hcomma, hotherwise⟩,
        spelled_branchPieces whenFalse hfalse hps⟩
  | .undefined, _, h, _, _, hcomma, hps | .number _, _, h, _, _, hcomma, hps
  | .text _, _, h, _, _, hcomma, hps | .operator _, _, h, _, _, hcomma, hps
  | .name _, _, h, _, _, hcomma, hps | .call _ _, _, h, _, _, hcomma, hps
  | .group _, _, h, _, _, hcomma, hps => by
    simp only [Token.pieces, List.singleton_append, Spelled]
    exact ⟨rfl, ⟨_, h⟩, hcomma, hps⟩

theorem spelled_branchPieces : (ts : List Token) → AllReadable false ts → {inside : Bool} →
    {ps : List Piece} → Spelled inside ps → Spelled inside (branchPieces ts ++ ps)
  | [t], h, _, _, hps => by
    simp only [AllReadable] at h
    exact Token.spelled_pieces t h.1 (by simp [isComma_of_readable h.1]) hps
  | [], _, _, _, hps => by
    simp only [branchPieces, List.singleton_append, Spelled]
    exact ⟨rfl, ⟨false, by simp [Token.Readable, AllReadable]⟩, by simp [Token.isOperator], hps⟩
  | t :: u :: rest, h, _, _, hps => by
    simp only [branchPieces, List.singleton_append, Spelled]
    exact ⟨rfl, ⟨false, by simpa only [Token.Readable] using h⟩, by simp [Token.isOperator], hps⟩

end

theorem isComma_head_pieces (t : Token) (ps : List Piece) :
    ∃ p more, t.pieces ++ ps = p :: more ∧ p.isComma = t.isOperator .comma := by
  cases t with
  | conditional _ _ => exact ⟨.condition, _, rfl, rfl⟩
  | _ => exact ⟨_, _, rfl, rfl⟩

theorem not_precedes_comma {t : Token} (h : (Token.operator .comma).Precedes t) :
    t.isOperator .comma = false := by
  cases hcomma : t.isOperator .comma with
  | false => rfl
  | true =>
    rw [eq_of_isOperator hcomma] at h
    exact absurd h (by simp [Token.Precedes, Operator.Precedes, Operator.isSign])

theorem spelled_sequencePieces {inArguments : Bool} {ts : List Token}
    (h : AllReadable inArguments ts) : Spelled inArguments (sequencePieces ts) := by
  induction ts with
  | nil => trivial
  | cons t rest ih =>
    simp only [AllReadable] at h
    obtain ⟨ht, hnext, hrest⟩ := h
    rw [sequencePieces_cons]
    refine Token.spelled_pieces t ht (fun hcomma => ?_) (ih hrest)
    obtain rfl := eq_of_isOperator hcomma
    simp only [Token.Readable, true_implies] at ht
    refine ⟨ht, fun p hp => ?_⟩
    cases rest with
    | nil => contradiction
    | cons u us =>
      obtain ⟨q, more, hq, hcomma'⟩ := isComma_head_pieces u (sequencePieces us)
      rw [sequencePieces_cons, hq] at hp
      rw [← Option.some.inj hp, hcomma']
      exact not_precedes_comma (hnext u rfl)

section
variable {inArguments : Bool}

theorem startsToken_tokenChars {t : Token} (h : t.Readable inArguments) :
    StartsToken (tokenChars t) := by
  have hname {s : String} (hs : IsName s.toList) : StartsToken (foldName s).toList := by
    obtain ⟨c, rest, hc, hstart⟩ := (isName_foldName hs).exists_cons
    exact ⟨c, rest, hc, isGap_of_isNameChar (isNameChar_of_isNameStart hstart)⟩
  cases t with
  | undefined => exact ⟨_, _, rfl, rfl⟩
  | number x =>
    simp only [Token.Readable] at h
    rw [tokenChars]
    by_cases hf : x.isFinite
    · obtain ⟨c, cs, htext, hc, -⟩ := numberText_eq_cons h hf
      exact ⟨c, cs, htext, isGap_of_isNameChar (isNameChar_of_isDigit hc)⟩
    · rw [numberText_infinite h hf]
      exact ⟨_, _, rfl, rfl⟩
  | text s => exact ⟨_, _, rfl, rfl⟩
  | operator op => cases op <;> exact ⟨_, _, rfl, rfl⟩
  | name s =>
    simp only [Token.Readable] at h
    exact hname h.1
  | call s arguments =>
    simp only [Token.Readable] at h
    obtain ⟨c, rest, hc, hgap⟩ := hname h.1.1
    exact ⟨c, _, by rw [tokenChars, hc]; rfl, hgap⟩
  | group inner => exact ⟨_, _, rfl, rfl⟩
  | conditional whenTrue whenFalse => exact ⟨_, _, rfl, rfl⟩

theorem sequenceChars_cons {t : Token} (h : t.Readable inArguments) (written : Bool)
    (rest : List Token) :
    sequenceChars written (t :: rest) = (if written && !t.isOperator .comma then [' '] else []) ++
      (tokenChars t ++ sequenceChars true rest) := by
  obtain ⟨c, more, hc, -⟩ := startsToken_tokenChars h
  have hwritten : (written || !(tokenChars t).isEmpty) = true := by
    rw [hc]
    exact Bool.or_true written
  rw [sequenceChars]
  simp only [hwritten, List.append_assoc]

theorem sequenceChars_singleton (t : Token) : sequenceChars false [t] = tokenChars t := by
  simp [sequenceChars]

end

mutual

theorem Token.piecesChars_pieces : (t : Token) → {inArguments : Bool} → t.Readable inArguments →
    (written : Bool) → (ps : List Piece) →
      piecesChars written (t.pieces ++ ps) = (if written && !t.isOperator .comma then [' '] else []) ++
        (tokenChars t ++ piecesChars true ps)
  | .conditional whenTrue whenFalse, _, h, written, ps => by
    simp only [Token.Readable] at h
    have hcomma : (Token.conditional whenTrue whenFalse).isOperator .comma = false := rfl
    simp only [Token.pieces, List.cons_append, List.append_assoc, tokenChars, hcomma]
    rw [piecesChars, piecesChars_branch whenTrue h.1, piecesChars, piecesChars_branch whenFalse h.2.2]
    rfl
  | .undefined, _, _, _, _ | .number _, _, _, _, _ | .text _, _, _, _, _
  | .operator _, _, _, _, _ | .name _, _, _, _, _ | .call _ _, _, _, _, _
  | .group _, _, _, _, _ => rfl

theorem piecesChars_branch : (ts : List Token) → AllReadable false ts → (ps : List Piece) →
    piecesChars true (branchPieces ts ++ ps) =
      branchChars ts.length (sequenceChars false ts) ++ piecesChars true ps
  | [t], h, ps => by
    simp only [AllReadable] at h
    rw [branchPieces, Token.piecesChars_pieces t h.1, isComma_of_readable h.1,
      sequenceChars_singleton]
    rfl
  | [], _, _ => rfl
  | t :: u :: rest, _, ps => by
    simp [branchPieces, piecesChars, Piece.isComma, Token.isOperator, Piece.chars, tokenChars,
      branchChars]

end

/-- The text of a sequence is the text of its pieces. -/
theorem sequenceChars_eq {inArguments : Bool} {ts : List Token} (h : AllReadable inArguments ts)
    (written : Bool) : sequenceChars written ts = piecesChars written (sequencePieces ts) := by
  induction ts generalizing written with
  | nil => rfl
  | cons t rest ih =>
    simp only [AllReadable] at h
    rw [sequenceChars_cons h.1, ih h.2.2, sequencePieces_cons, Token.piecesChars_pieces t h.1]

end Reckon
