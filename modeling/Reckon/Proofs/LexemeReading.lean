import Reckon.Proofs.Readable

/-!
How single tokens are read at the start of a text.

A region is read lexeme by lexeme. For each kind of token there is one lemma that its text is read as
that token, up to a separator or for the closed kinds up to anything. The rest of the text stays.
-/

namespace Reckon

/-- The tokens after one more token was read. -/
def push (before : List Token) (t : Token) : List Token := (addToken before t 0 0).result

theorem result_addToken (before : List Token) (t : Token) (start stop : Nat) :
    (addToken before t start stop).result = push before t := by
  unfold push addToken
  split
  · split <;> first | rfl | (split <;> rfl)
  · rfl

theorem push_of_precedes {before : List Token} {t : Token}
    (h : ∀ p ∈ before.head?, p.Precedes t) : push before t = t :: before := by
  unfold push addToken
  split
  · rename_i op previous older
    have hp : previous.Precedes op := h (.operator previous) rfl
    cases previous <;> cases op <;>
      first | rfl | exact absurd hp (by simp [Operator.Precedes, Operator.isSign])
  · rfl

theorem push_nil (t : Token) : push [] t = [t] := by
  cases t <;> rfl

/-- Only the last token changes when one more is read. -/
theorem push_cons (a : Token) (older : List Token) (t : Token) :
    push (a :: older) t = push [a] t ++ older := by
  unfold push addToken
  split
  · rename_i heq
    obtain ⟨rfl, rfl⟩ := List.cons.inj heq
    simp only
    split <;> first | rfl | (split <;> rfl)
  · rename_i hpair
    split
    · rename_i heq
      obtain ⟨rfl, rfl⟩ := List.cons.inj heq
      exact (hpair _ _ _ rfl rfl).elim
    · rfl

theorem push_of_operator?_eq_none {a : Token} (h : a.operator? = none) (older : List Token)
    (t : Token) : push (a :: older) t = t :: a :: older := by
  cases a <;> first | contradiction | (cases t <;> rfl)

theorem push_not_not {before : List Token}
    (h : ∀ p ∈ before.head?, p.Precedes (.operator .notNot)) :
    push (push before (.operator .not)) (.operator .not) = .operator .notNot :: before := by
  have hfirst : push before (.operator .not) = .operator .not :: before := by
    refine push_of_precedes ?_
    intro p hp
    have := h p hp
    cases p with
    | operator p =>
      rcases this with ⟨-, hsign⟩ | ⟨-, hop⟩
      · exact .inl ⟨rfl, hsign⟩
      · exact absurd hop (by simp)
    | _ => trivial
  rw [hfirst]
  rfl

/-- The text begins with the token, and `rest` follows it. -/
def ReadsToken (nested : RegionReader) (inArguments : Bool) (cs : List Char) (t : Token)
    (rest : List Char) : Prop :=
  ∃ c more, cs = c :: more ∧ isGap c = false ∧
    ∀ pos, ∃ stop, (readLexeme nested inArguments pos c more).result = .token t stop rest

section
variable {nested : RegionReader} {inArguments : Bool}

/-- What a region comes to after its next lexeme. -/
def afterLexeme (nested : RegionReader) (inArguments : Bool) (before : List Token) :
    Lexeme → List Token
  | .token t stop rest => (readRegion nested inArguments (push before t) stop rest).result
  | .dropped stop rest => (readRegion nested inArguments before stop rest).result
  | .last => before.reverse

theorem readRegion_nil {cs : List Char}
    (h : cs.dropWhile isGap = []) (before : List Token) (pos : Nat) :
    readRegion nested inArguments before pos cs = pure before.reverse := by
  rw [readRegion]
  split
  · rfl
  · rename_i hcons
    rw [h] at hcons
    contradiction

/-- A region as its next lexeme and what comes after it. -/
theorem readRegion_cons {c : Char} {cs more : List Char}
    (h : cs.dropWhile isGap = c :: more) (before : List Token) (pos : Nat) :
    readRegion nested inArguments before pos cs =
      readLexeme nested inArguments (pos + (cs.takeWhile isGap).length) c more >>= fun
        | .token t stop rest => do
          let before ← addToken before t (pos + (cs.takeWhile isGap).length) stop
          readRegion nested inArguments before stop rest
        | .dropped stop rest => readRegion nested inArguments before stop rest
        | .last => pure before.reverse := by
  rw [readRegion]
  split
  · rename_i hnil
    rw [h] at hnil
    contradiction
  · rename_i d rest hcons
    rw [h] at hcons
    obtain ⟨rfl, rfl⟩ := List.cons.inj hcons
    dsimp only
    split
    · rename_i hlexeme
      exact Reported.ext' (by simp [hlexeme]) (by simp [hlexeme])
    · rename_i hlexeme
      exact Reported.ext' (by simp [hlexeme]) (by simp [hlexeme])
    · rename_i hlexeme
      exact Reported.ext' (by simp [hlexeme]) (by simp [hlexeme])

theorem result_readRegion_cons {c : Char} {cs more : List Char}
    (h : cs.dropWhile isGap = c :: more) (before : List Token) (pos : Nat) :
    (readRegion nested inArguments before pos cs).result =
      afterLexeme nested inArguments before (readLexeme nested inArguments
        (pos + (cs.takeWhile isGap).length) c more).result := by
  rw [readRegion_cons h, Reported.result_bind]
  cases (readLexeme nested inArguments (pos + (cs.takeWhile isGap).length) c more).result with
  | token t stop rest => simp only [afterLexeme, Reported.result_bind, result_addToken]
  | dropped stop rest => rfl
  | last => rfl

/-- Induction over the lexemes of a region, for a property of the tokens so far, the text and the
result. -/
theorem readRegion_induction {p : List Token → List Char → List Token → Prop}
    (hend : ∀ before gap, (∀ g ∈ gap, isGap g) → p before gap before.reverse)
    (hstep : ∀ before gap c more pos, (∀ g ∈ gap, isGap g) →
      match (readLexeme nested inArguments pos c more).result with
      | .token t _ rest => ∀ result, p (push before t) rest result → p before (gap ++ c :: more) result
      | .dropped _ rest => ∀ result, p before rest result → p before (gap ++ c :: more) result
      | .last => p before (gap ++ c :: more) before.reverse)
    (before : List Token) (pos : Nat) (cs : List Char) :
    p before cs (readRegion nested inArguments before pos cs).result := by
  have hgap (cs : List Char) : ∀ g ∈ cs.takeWhile isGap, isGap g :=
    List.all_eq_true.mp List.all_takeWhile
  induction hlen : cs.length using Nat.strong_induction_on generalizing before pos cs with
  | _ n ih =>
    subst hlen
    have hsplit := @List.takeWhile_append_dropWhile Char isGap cs
    cases hdrop : cs.dropWhile isGap with
    | nil =>
      rw [hdrop, List.append_nil] at hsplit
      rw [readRegion_nil hdrop, ← hsplit]
      exact hend before _ (hgap cs)
    | cons c more =>
      have hcs := hstep before _ c more (pos + (cs.takeWhile isGap).length) (hgap cs)
      have hshorter := @length_rest_lt_of_readLexeme nested inArguments
        (pos + (cs.takeWhile isGap).length) c cs more _ hdrop rfl
      rw [← hdrop, hsplit] at hcs
      rw [result_readRegion_cons hdrop]
      revert hcs hshorter
      cases (readLexeme nested inArguments (pos + (cs.takeWhile isGap).length) c more).result with
      | token t stop rest =>
        intro hcs hshorter
        exact hcs _ (ih rest.length hshorter (push before t) stop rest rfl)
      | dropped stop rest =>
        intro hcs hshorter
        exact hcs _ (ih rest.length hshorter before stop rest rfl)
      | last =>
        intro hcs _
        exact hcs

theorem dropWhile_gap {gap more : List Char} {c : Char} (hgap : ∀ g ∈ gap, isGap g)
    (hc : isGap c = false) : (gap ++ c :: more).dropWhile isGap = c :: more := by
  rw [List.dropWhile_append_of_pos hgap, List.dropWhile_cons_of_neg (by simp [hc])]

theorem readRegion_token {cs rest gap : List Char} {t : Token}
    (h : ReadsToken nested inArguments cs t rest) (hgap : ∀ g ∈ gap, isGap g)
    (before : List Token) (pos : Nat) :
    ∃ stop, (readRegion nested inArguments before pos (gap ++ cs)).result =
      (readRegion nested inArguments (push before t) stop rest).result := by
  obtain ⟨c, more, rfl, hc, hread⟩ := h
  obtain ⟨stop, hread⟩ := hread (pos + ((gap ++ c :: more).takeWhile isGap).length)
  refine ⟨stop, ?_⟩
  rw [result_readRegion_cons (dropWhile_gap hgap hc), hread]
  rfl

theorem readRegion_gap {gap : List Char} (hgap : ∀ g ∈ gap, isGap g) (before : List Token)
    (pos : Nat) : (readRegion nested inArguments before pos gap).result = before.reverse := by
  refine congrArg Reported.result (readRegion_nil ?_ before pos)
  rw [← List.append_nil gap, List.dropWhile_append_of_pos hgap, List.dropWhile_nil]

theorem readRegion_comma {gap : List Char} (hgap : ∀ g ∈ gap, isGap g) (before : List Token)
    (pos : Nat) : (readRegion nested false before pos (gap ++ [','])).result = before.reverse := by
  rw [result_readRegion_cons (dropWhile_gap hgap rfl)]
  exact readRegion_gap (by simp) before _

theorem readsToken_stray {c : Char} (hc : c = ':' ∨ c = undefinedMark) (rest : List Char) :
    ReadsToken nested false (c :: rest) .undefined rest := by
  rcases hc with rfl | rfl <;> exact ⟨_, rest, rfl, rfl, fun _ => ⟨_, rfl⟩⟩

/-- A character that no token begins with ends arguments. -/
theorem readRegion_stray {c : Char} (hc : c = ':' ∨ c = undefinedMark) {gap : List Char}
    (hgap : ∀ g ∈ gap, isGap g) (before : List Token) (pos : Nat) (rest : List Char) :
    (readRegion nested true before pos (gap ++ c :: rest)).result = before.reverse := by
  rcases hc with rfl | rfl <;> rw [result_readRegion_cons (dropWhile_gap hgap rfl)] <;> rfl

theorem isGap_of_isNameChar {c : Char} (h : isNameChar c) : isGap c = false := by
  cases hgap : isGap c with
  | false => rfl
  | true =>
    simp only [isGap, Bool.or_eq_true, beq_iff_eq] at hgap
    rcases hgap with rfl | rfl <;> exact absurd h (by decide)

theorem isNameStart_of_isDigit {c : Char} (h : c.isDigit) : isNameStart c = false := by
  have hall : ∀ n < 128, (Char.ofNat n).isDigit → isNameStart (Char.ofNat n) = false := by decide
  have := hall c.toNat (toNat_lt_of_isNameChar (isNameChar_of_isDigit h))
  rw [Char.ofNat_toNat] at this
  exact this h

theorem AtSeparator.endsName {rest : List Char} (h : AtSeparator rest) :
    ∀ c more, rest = c :: more → isNameChar c = false ∧ c ≠ ':' := by
  intro c more hc
  rcases h c more hc with rfl | rfl <;> decide

theorem readsToken_name {cs rest : List Char} (h : IsName cs) (hword : Operator.ofWord? cs = none)
    (hrest : AtSeparator rest) :
    ReadsToken nested inArguments (cs ++ rest) (.name (String.ofList cs)) rest := by
  obtain ⟨c, more, rfl, hc⟩ := h.exists_cons
  have hread := h.readWord_append hrest.endsName
  refine ⟨c, more ++ rest, rfl, isGap_of_isNameChar (isNameChar_of_isNameStart hc), fun pos => ?_⟩
  refine ⟨pos + width (c :: more), ?_⟩
  rw [readLexeme, if_pos hc, ← List.cons_append, readNamed, hread]
  simp only [hword]
  split
  · contradiction
  · rename_i inside _
    rcases hrest '(' inside rfl with h | h <;> exact absurd h (by decide)
  · rfl

theorem readsToken_wordOperator {cs rest : List Char} {op : Operator} (h : IsName cs)
    (hword : Operator.ofWord? cs = some op) (hrest : AtSeparator rest) :
    ReadsToken nested inArguments (cs ++ rest) (.operator op) rest := by
  obtain ⟨c, more, rfl, hc⟩ := h.exists_cons
  have hread := h.readWord_append hrest.endsName
  refine ⟨c, more ++ rest, rfl, isGap_of_isNameChar (isNameChar_of_isNameStart hc), fun pos => ?_⟩
  refine ⟨pos + width (c :: more), ?_⟩
  rw [readLexeme, if_pos hc, ← List.cons_append, readNamed, hread]
  simp only [hword]
  rfl

theorem readParenthesized_closed {p : Char → Prop} {inner : List Char} (h : Closed p inner)
    (rest : List Char) (pos : Nat) :
    ∃ start stop, (readParenthesized pos (inner ++ ')' :: rest)).result =
      ⟨start, inner, stop, rest⟩ := by
  have hend : enclosed .outside 0 (')' :: rest) = ⟨[], some rest, .outside⟩ := rfl
  have hcut := enclosed_append h (')' :: rest)
  rw [hend] at hcut
  refine ⟨pos + 1, pos + 1 + width inner + 1, ?_⟩
  simp only [readParenthesized, hcut, List.append_nil]
  rfl

theorem readsToken_call {p : Char → Prop} {cs inner rest : List Char} {arguments : List Token}
    (h : IsName cs) (hword : Operator.ofWord? cs = none) (hinner : Closed p inner)
    (hnested : ∀ pos, (nested true pos inner).result = arguments) :
    ReadsToken nested inArguments (cs ++ '(' :: (inner ++ ')' :: rest))
      (.call (String.ofList cs) arguments) rest := by
  obtain ⟨c, more, rfl, hc⟩ := h.exists_cons
  have hread := @IsName.readWord_append _ h ('(' :: (inner ++ ')' :: rest)) (by
    intro d more hd
    obtain ⟨rfl, -⟩ := List.cons.inj hd
    decide)
  refine ⟨c, more ++ _, rfl, isGap_of_isNameChar (isNameChar_of_isNameStart hc), fun pos => ?_⟩
  obtain ⟨start, stop, hparenthesized⟩ :=
    readParenthesized_closed hinner rest (pos + width (c :: more))
  refine ⟨stop, ?_⟩
  rw [readLexeme, if_pos hc, ← List.cons_append, readNamed, hread]
  simp only [hword, Reported.result_bind, Reported.result_pure, hparenthesized, hnested]

theorem readsToken_group {p : Char → Prop} {inner rest : List Char} {tokens : List Token}
    (hinner : Closed p inner) (hnested : ∀ pos, (nested false pos inner).result = tokens) :
    ReadsToken nested inArguments ('(' :: (inner ++ ')' :: rest)) (.group tokens) rest := by
  refine ⟨'(', _, rfl, rfl, fun pos => ?_⟩
  obtain ⟨start, stop, hparenthesized⟩ := readParenthesized_closed hinner rest pos
  refine ⟨stop, ?_⟩
  have hlexeme : readLexeme nested inArguments pos '(' (inner ++ ')' :: rest) = (do
      let p ← readParenthesized pos (inner ++ ')' :: rest)
      let inner ← nested false p.start p.interior
      pure (.token (.group inner) p.stop p.rest)) := rfl
  rw [hlexeme]
  simp only [Reported.result_bind, Reported.result_pure, hparenthesized, hnested]

theorem readsToken_text (s rest : List Char) :
    ReadsToken nested inArguments (quotedChars s ++ rest)
      (.text (String.ofList (s.filter (· ≠ '\x00')))) rest := by
  refine ⟨'\'', s.flatMap quotedChar ++ '\'' :: rest, by simp [quotedChars], rfl, fun pos => ?_⟩
  have hlexeme (cs : List Char) : readLexeme nested inArguments pos '\'' cs = (do
      let literal ← readString '\'' pos (pos + 1) cs
      pure (.token (.text (String.ofList literal.value)) literal.stop literal.rest)) := rfl
  refine ⟨pos + 1 + width (s.flatMap quotedChar) + 1, ?_⟩
  rw [hlexeme, readString_quotedChars]
  rfl

theorem readsToken_number {x : Float} (hx : Unsigned x) {rest : List Char}
    (hrest : AtSeparator rest) :
    ReadsToken nested inArguments (numberText x ++ rest)
      (if x.isFinite then .number x else .name "inf") rest := by
  by_cases hf : x.isFinite
  · rw [if_pos hf]
    obtain ⟨c, cs, htext, hc, -⟩ := numberText_eq_cons hx hf
    refine ⟨c, cs ++ rest, by rw [htext]; rfl,
      isGap_of_isNameChar (isNameChar_of_isDigit hc), fun pos => ?_⟩
    obtain ⟨stop, hread⟩ := readNumeral_numberText hx hf hrest pos
    refine ⟨stop, ?_⟩
    have hnot : ¬isNameStart c = true := by simp [isNameStart_of_isDigit hc]
    rw [htext, List.cons_append] at hread
    rw [readLexeme, if_neg hnot, if_pos (by simp [hc])]
    exact hread
  · rw [if_neg hf, numberText_infinite hx hf]
    exact readsToken_name (.simple rfl (List.all_eq_true.mp rfl)) rfl hrest

/-- The spelling of an operator: a word, two marks, or a symbol. -/
theorem symbol_cases (op : Operator) :
    (IsName op.symbol.toList ∧ Operator.ofWord? op.symbol.toList = some op) ∨ op = .notNot ∨
    (∃ c cs, op.symbol.toList = c :: cs ∧ isGap c = false ∧ isNameStart c = false ∧
      c.isDigit = false ∧ isQuote c = false ∧ (c = '.' → cs = []) ∧
      ∀ rest, AtSeparator rest →
        Operator.ofSymbol? (c :: cs ++ rest) = some (op, (c :: cs).length)) := by
  have hword {c d : Char} (hc : isNameStart c) (hd : isNameChar d) : IsName [c, d] := by
    refine .simple hc fun e he => ?_
    rw [List.mem_singleton.mp he]
    exact hd
  cases op with
  | textEq => exact .inl ⟨hword rfl rfl, rfl⟩
  | textNe => exact .inl ⟨hword rfl rfl, rfl⟩
  | textLt => exact .inl ⟨hword rfl rfl, rfl⟩
  | textLe => exact .inl ⟨hword rfl rfl, rfl⟩
  | textGt => exact .inl ⟨hword rfl rfl, rfl⟩
  | textGe => exact .inl ⟨hword rfl rfl, rfl⟩
  | notNot => exact .inr (.inl rfl)
  | _ =>
    refine .inr (.inr ⟨_, _, rfl, rfl, rfl, rfl, rfl, by decide, fun rest hrest => ?_⟩)
    cases rest with
    | nil => rfl
    | cons d more => rcases hrest d more rfl with rfl | rfl <;> rfl

theorem readsToken_symbol {op : Operator} (hop : op ≠ .notNot)
    (hcomma : op = .comma → inArguments = true) {rest : List Char} (hrest : AtSeparator rest) :
    ReadsToken nested inArguments (op.symbol.toList ++ rest) (.operator op) rest := by
  rcases symbol_cases op with ⟨hname, hword⟩ | hnot | ⟨c, cs, hcs, hgap, hstart, hdigit, hquote, hpoint, hof⟩
  · exact readsToken_wordOperator hname hword hrest
  · exact absurd hnot hop
  · refine ⟨c, cs ++ rest, by rw [hcs]; rfl, hgap, fun pos => ?_⟩
    have hnumber : ¬(c.isDigit || (c == '.' && startsWithDigit (cs ++ rest))) = true := by
      simp only [hdigit, Bool.false_or, Bool.and_eq_true, beq_iff_eq]
      rintro ⟨hc, hstarts⟩
      rw [hpoint hc, List.nil_append] at hstarts
      cases rest with
      | nil => contradiction
      | cons d more =>
        rcases hrest d more rfl with rfl | rfl <;> exact Bool.false_ne_true hstarts
    have hkept : ¬(op = .comma ∧ (!inArguments) = true) := by
      rintro ⟨hc, hin⟩
      simp [hcomma hc] at hin
    have hdrop : (c :: (cs ++ rest)).drop (c :: cs).length = rest := by
      rw [← List.cons_append, List.drop_left]
    have hof := hof rest hrest
    rw [List.cons_append] at hof
    refine ⟨pos + (c :: cs).length, ?_⟩
    rw [readLexeme, if_neg (by simp [hstart]), if_neg hnumber, if_neg (by simp [hquote]), hof]
    simp only [if_neg hkept, hdrop]
    rfl

/-- Two marks of `not` are two tokens at first. -/
theorem readsToken_not (rest : List Char) (h : AtSeparator rest ∨ ∃ more, rest = '!' :: more) :
    ReadsToken nested inArguments ('!' :: rest) (.operator .not) rest := by
  rcases h with h | ⟨more, rfl⟩
  · exact @readsToken_symbol nested inArguments .not (by simp) (by simp) rest h
  · exact ⟨'!', _, rfl, rfl, fun _ => ⟨_, rfl⟩⟩

/-- The text does not begin with a blank. -/
def StartsToken (cs : List Char) : Prop := ∃ c more, cs = c :: more ∧ isGap c = false

theorem StartsToken.dropWhile {cs : List Char} (h : StartsToken cs) (rest : List Char) :
    (' ' :: (cs ++ rest)).dropWhile isGap = cs ++ rest := by
  obtain ⟨c, more, rfl, hc⟩ := h
  exact @dropWhile_gap [' '] (more ++ rest) c (by simp [isGap]) hc

/-- The false branch ends at a blank, or with the text. -/
theorem branchText_blank {w after : List Char} (hw : Closed (· ≠ ' ') w)
    (hafter : ∀ c more, after = c :: more → c = ' ') :
    (branchText ' ' .outside 0 (w ++ after)).text = w ∧
      (branchText ' ' .outside 0 (w ++ after)).rest = after.tail := by
  rw [branchText_append hw]
  cases after with
  | nil => exact ⟨List.append_nil w, rfl⟩
  | cons c more =>
    obtain rfl := hafter c more rfl
    exact ⟨List.append_nil w, rfl⟩

/-- A conditional whose false branch is followed by `sep` without a blank, and then by a blank or by
nothing. The blank belongs to the conditional. -/
theorem readsToken_conditional {trueText falseText sep after : List Char}
    {whenTrue whenFalse : List Token} (htrue : Closed (· ≠ ':') trueText)
    (htrueStart : StartsToken trueText) (hfalse : Closed (· ≠ ' ') falseText)
    (hfalseStart : StartsToken falseText) (hsep : sep = [] ∨ sep = [','])
    (hafter : ∀ c more, after = c :: more → c = ' ')
    (hreadTrue : ∀ pos,
      (readBranch nested .whenTrue pos (trueText ++ [' '])).result = whenTrue)
    (hreadFalse : ∀ pos,
      (readBranch nested .whenFalse pos (falseText ++ sep)).result = whenFalse) :
    ReadsToken nested inArguments
      ('?' :: ' ' :: (trueText ++ ' ' :: ':' :: ' ' :: (falseText ++ (sep ++ after))))
      (.conditional whenTrue whenFalse) after.tail := by
  refine ⟨'?', _, rfl, rfl, fun pos => ?_⟩
  have htrueCut (rest : List Char) : branchText ':' .outside 0 (trueText ++ ' ' :: ':' :: rest) =
      ⟨trueText ++ [' '], rest, true, .outside, 0⟩ := by
    have hclosed : Closed (· ≠ ':') (trueText ++ [' ']) :=
      htrue.append (Closed.nil.blank (by decide))
    have := branchText_append hclosed (':' :: rest)
    rw [List.append_assoc, List.singleton_append] at this
    rw [this]
    have hstop : branchText ':' .outside 0 (':' :: rest) = ⟨[], rest, true, .outside, 0⟩ := rfl
    rw [hstop, List.append_nil]
  have hfalseClosed : Closed (· ≠ ' ') (falseText ++ sep) := by
    rcases hsep with rfl | rfl
    · rwa [List.append_nil]
    · exact hfalse.append (.char rfl (by decide) (by decide) (by decide) .nil)
  obtain ⟨htext, hrest⟩ := branchText_blank hfalseClosed hafter
  rw [List.append_assoc] at htext hrest
  have hlexeme (cs : List Char) :
      readLexeme nested inArguments pos '?' cs = readConditional nested pos cs := rfl
  rw [hlexeme]
  simp only [readConditional, Reported.result_bind, Reported.result_pure, htrueStart.dropWhile,
    htrueCut, hfalseStart.dropWhile, htext, hrest, hreadTrue, hreadFalse]
  exact ⟨_, rfl⟩

/-- A conditional without a colon takes the whole text as its true branch. -/
theorem readsToken_openConditional {cs : List Char} {whenTrue : List Token}
    (hclosed : Closed (· ≠ ':') (cs.dropWhile isGap))
    (hread : ∀ pos, (readBranch nested .whenTrue pos (cs.dropWhile isGap)).result = whenTrue) :
    ReadsToken nested inArguments ('?' :: cs) (.conditional whenTrue [.number 0.0]) [] := by
  refine ⟨'?', _, rfl, rfl, fun pos => ?_⟩
  have hcut : branchText ':' .outside 0 (cs.dropWhile isGap) =
      ⟨cs.dropWhile isGap, [], false, .outside, 0⟩ := by
    have := branchText_append hclosed []
    rw [List.append_nil] at this
    rw [this, branchText, List.append_nil]
  have hempty (pos : Nat) : (readBranch nested .whenFalse pos []).result = [.number 0.0] := rfl
  have hlexeme (cs : List Char) :
      readLexeme nested inArguments pos '?' cs = readConditional nested pos cs := rfl
  rw [hlexeme]
  simp only [readConditional, Reported.result_bind, Reported.result_pure, hcut, hread,
    List.dropWhile_nil, branchText, hempty]
  exact ⟨_, rfl⟩

end

end Reckon
