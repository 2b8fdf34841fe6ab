import Reckon.Proofs.BracketReading
import Reckon.Proofs.SourceReadable

/-!
Reports of what is not closed.

Literals are read by one function and passed over by others, and all of them find the same ends. So
every lexeme of a balanced text leaves a balanced rest and reads balanced regions, where nothing is
open to report; and a text that ends inside a literal keeps doing so as lexemes are taken off it,
until one of them reports the literal.
-/

namespace Reckon

/-- Whether a literal was left open. -/
def Cause.isOpenLiteral : Cause → Bool
  | .unterminatedString | .unterminatedStringInParentheses | .unevenQuotes => true
  | _ => false

/-- Whether a literal or a parenthesis was left open, or a parenthesis closed that was not open. -/
def Cause.isUnbalanced : Cause → Bool
  | .missingParenthesis | .unevenParentheses => true
  | .charEndsArguments c | .charIgnored c => c == ')'
  | cause => cause.isOpenLiteral

/-! What a lexeme takes off a text. -/

theorem balanced_readWord {c : Char} {cs : List Char} (h : isNameStart c) :
    Balanced (readWord (c :: cs)).1 := by
  refine balanced_of_forall fun d hd => ?_
  rcases (@isName_readWord c cs h).1.mem hd with hd | rfl
  · obtain ⟨hq, hopen, hclose, -⟩ := ne_of_isNameChar hd
    exact ⟨hq, hopen, hclose⟩
  · decide

/-- Digits, and after a point those of the fraction if there is one. -/
def digitsText (whole fraction : List Char) : List Char :=
  whole ++ if fraction.isEmpty then [] else '.' :: fraction

theorem readDigits_text (cs : List Char) :
    cs = digitsText (readDigits cs).1 (readDigits cs).2.1 ++ (readDigits cs).2.2 ∧
      (∀ c ∈ (readDigits cs).1, c.isDigit) ∧ ∀ c ∈ (readDigits cs).2.1, c.isDigit := by
  have hdigits (cs : List Char) : ∀ c ∈ cs.takeWhile Char.isDigit, c.isDigit :=
    List.all_eq_true.mp List.all_takeWhile
  unfold readDigits digitsText
  simp only
  split
  · rename_i rest hrest
    split
    · rename_i hstarts
      refine ⟨?_, hdigits cs, hdigits rest⟩
      have hfraction : (rest.takeWhile Char.isDigit).isEmpty = false := by
        cases rest with
        | nil => contradiction
        | cons d rest =>
          have hd : d.isDigit := hstarts
          rw [List.takeWhile_cons_of_pos hd]
          rfl
      rw [hfraction, if_neg Bool.false_ne_true, List.append_assoc, List.cons_append,
        List.takeWhile_append_dropWhile, ← hrest, List.takeWhile_append_dropWhile]
    · exact ⟨by simp [← hrest], hdigits cs, by simp⟩
  · exact ⟨by simp, hdigits cs, by simp⟩

theorem balanced_digitsText {whole fraction : List Char} (hwhole : ∀ c ∈ whole, c.isDigit)
    (hfraction : ∀ c ∈ fraction, c.isDigit) : Balanced (digitsText whole fraction) := by
  have hdigits {cs : List Char} (hcs : ∀ c ∈ cs, c.isDigit) : Balanced cs := by
    refine balanced_of_forall fun d hd => ?_
    obtain ⟨hq, hopen, hclose, -⟩ := ne_of_isNameChar (isNameChar_of_isDigit (hcs d hd))
    exact ⟨hq, hopen, hclose⟩
  refine (hdigits hwhole).append ?_
  split
  · exact balanced_nil
  · exact (balanced_singleton rfl (by decide) (by decide)).append (hdigits hfraction)

theorem readDigits_split (cs : List Char) :
    ∃ w, cs = w ++ (readDigits cs).2.2 ∧ Balanced w := by
  obtain ⟨hsplit, hwhole, hfraction⟩ := readDigits_text cs
  exact ⟨_, hsplit, balanced_digitsText hwhole hfraction⟩

theorem balanced_ofSymbol? {cs : List Char} {op : Operator} {size : Nat}
    (h : Operator.ofSymbol? cs = some (op, size)) : Balanced (cs.take size) :=
  (ofSymbol?_spec h).2.balanced

theorem Closes.balanced {quote : Char} (hquote : isQuote quote) {w : List Char}
    (h : Closes (.inside quote) w) : Balanced (quote :: w) := by
  rw [balanced_iff, Reckon.openAfter?, if_neg (by simp [Quotation.isPlain, hquote])]
  have hdepth : depthAfter .outside 0 quote = 0 := by simp [depthAfter, Quotation.isPlain, hquote]
  rw [feed_quote hquote, hdepth, h.openAfter?]

/-! A balanced text gives nothing to report. -/

/-- A reader that reports nothing unbalanced in balanced regions. -/
def ReadsBalanced (nested : RegionReader) : Prop :=
  ∀ inArguments pos cs, Balanced cs →
    (nested inArguments pos cs).AllCauses (·.isUnbalanced = false)

section
variable {nested : RegionReader} {inArguments : Bool}

theorem ReadsBalanced.readBranch (h : ReadsBalanced nested) (branch : Branch) (pos : Nat)
    {cs : List Char} (hb : Balanced cs) :
    (readBranch nested branch pos cs).AllCauses (·.isUnbalanced = false) := by
  unfold Reckon.readBranch
  split
  · simp [Cause.isUnbalanced, Cause.isOpenLiteral]
  · exact h false pos cs hb

theorem Balanced.dropWhile_gap {cs : List Char} (h : Balanced cs) :
    Balanced (cs.dropWhile isGap) := by
  have hsplit := @List.takeWhile_append_dropWhile Char isGap cs
  have hgap : Balanced (cs.takeWhile isGap) := balanced_gap (List.all_eq_true.mp List.all_takeWhile)
  exact hgap.of_append (hsplit.symm ▸ h)

theorem Balanced.branchText_parts {cs : List Char} (h : Balanced cs) (stop : Char) :
    Balanced (Reckon.branchText stop .outside 0 cs).text ∧
      Balanced (Reckon.branchText stop .outside 0 cs).rest ∧
      (Reckon.branchText stop .outside 0 cs).openPart? = none := by
  obtain ⟨htext, hrest, hending, hdepth⟩ :=
    @branchText_of_openAfter? .outside 0 cs stop (balanced_iff.mp h)
  refine ⟨balanced_iff.mpr htext, hrest, ?_⟩
  rw [Int.natCast_zero] at hending hdepth
  rw [BranchText.openPart?, hending, hdepth]
  rfl

theorem ReadsBalanced.readConditional (h : ReadsBalanced nested) (pos : Nat) {cs : List Char}
    (hb : Balanced cs) :
    (readConditional nested pos cs).AllCauses (·.isUnbalanced = false) ∧
      Balanced (readConditional nested pos cs).result.rest := by
  obtain ⟨htext, hrest, hopen⟩ := hb.dropWhile_gap.branchText_parts ':'
  obtain ⟨htext', hrest', hopen'⟩ := hrest.dropWhile_gap.branchText_parts ' '
  unfold Reckon.readConditional
  simp only [Reported.allCauses_bind, Reported.allCauses_reportAt?, Reported.allCauses_pure,
    Reported.result_bind, Reported.result_pure, hopen, hopen', Option.getD_none, ite_self, and_true]
  refine ⟨⟨?_, ?_, h.readBranch .whenTrue _ htext, h.readBranch .whenFalse _ htext'⟩, hrest'⟩
  · split
    · simp
    · intro cause hcause
      exact Option.some.inj hcause ▸ rfl
  · simp

theorem not_isUnbalanced_of_isEscape {cause : Cause} (h : cause.isEscape) :
    cause.isUnbalanced = false := by
  cases cause <;> first | rfl | contradiction

theorem Balanced.parenthesized_parts (pos : Nat) {cs : List Char} (hb : Balanced ('(' :: cs)) :
    (readParenthesized pos cs).AllCauses (·.isUnbalanced = false) ∧
      Balanced (readParenthesized pos cs).result.interior ∧
      Balanced (readParenthesized pos cs).result.rest := by
  have hopen : openAfter? .outside 1 cs = some (.outside, 0) := balanced_iff.mp hb
  obtain ⟨inner, rest, -, rfl, hinner⟩ := enclosed_of_openAfter? hopen
  have hinner := balanced_iff.mpr hinner
  have hrest : Balanced rest := hinner.parenthesized.of_append (by simpa using hb)
  rw [readParenthesized_balanced hinner]
  exact ⟨by simp, hinner, hrest⟩

theorem Balanced.literal_parts {quote : Char} (hquote : isQuote quote) (start pos : Nat)
    {cs : List Char} (hb : Balanced (quote :: cs)) :
    (readString quote start pos cs).AllCauses (·.isUnbalanced = false) ∧
      Balanced (readString quote start pos cs).result.rest := by
  rcases readString_cases hquote start pos cs with ⟨w, hsplit, hclose, hcauses⟩ | ⟨-, hopen, -⟩
  · refine ⟨fun d hd => not_isUnbalanced_of_isEscape (hcauses d hd), ?_⟩
    exact (hclose.balanced hquote).of_append (by rwa [List.cons_append, ← hsplit])
  · have hend := hb.literals
    rw [Quotation.feedAll, List.foldl_cons, feed_quote hquote] at hend
    exact absurd hend (hopen cs List.prefix_rfl)

theorem ReadsBalanced.readNamed (h : ReadsBalanced nested) (pos : Nat) {c : Char} {cs : List Char}
    (hc : isNameStart c) (hb : Balanced (c :: cs)) :
    (readNamed nested pos (c :: cs)).AllCauses (·.isUnbalanced = false) ∧
      Balanced (readNamed nested pos (c :: cs)).result.rest := by
  have hrest : Balanced (readWord (c :: cs)).2 :=
    (balanced_readWord hc).of_append (by rwa [(isName_readWord hc).2])
  unfold Reckon.readNamed
  simp only
  split
  · exact ⟨by simp, hrest⟩
  · rename_i inside _ heq
    rw [heq] at hrest
    obtain ⟨hcauses, hinner, hrest⟩ :=
      Balanced.parenthesized_parts (pos + width (readWord (c :: cs)).1) hrest
    simp only [Reported.allCauses_bind, Reported.allCauses_pure, Reported.result_bind,
      Reported.result_pure, and_true]
    exact ⟨⟨hcauses, h true _ _ hinner⟩, hrest⟩
  · exact ⟨by simp, hrest⟩

theorem ReadsBalanced.readLexeme (h : ReadsBalanced nested) (pos : Nat) {c : Char} {cs : List Char}
    (hb : Balanced (c :: cs)) :
    (readLexeme nested inArguments pos c cs).AllCauses (·.isUnbalanced = false) ∧
      Balanced (readLexeme nested inArguments pos c cs).result.rest := by
  unfold Reckon.readLexeme
  split
  · rename_i hc
    exact h.readNamed pos hc hb
  · split
    · obtain ⟨w, hsplit, hw⟩ := readDigits_split (c :: cs)
      exact ⟨by simp, hw.of_append (hsplit ▸ hb)⟩
    · split
      · rename_i hquote
        obtain ⟨hcauses, hrest⟩ := hb.literal_parts hquote pos (pos + 1)
        simp only [Reported.allCauses_bind, Reported.allCauses_pure, Reported.result_bind,
          Reported.result_pure, and_true]
        exact ⟨hcauses, hrest⟩
      · split
        · rename_i op size hop
          have hrest : Balanced ((c :: cs).drop size) :=
            (balanced_ofSymbol? hop).of_append (by rwa [List.take_append_drop])
          split
          · simp [Cause.isUnbalanced, Cause.isOpenLiteral, Lexeme.rest, hrest]
          · simp [Lexeme.rest, hrest]
        · split
          · rename_i hc
            subst hc
            obtain ⟨hcauses, hinner, hrest⟩ := hb.parenthesized_parts pos
            simp only [Reported.allCauses_bind, Reported.allCauses_pure, Reported.result_bind,
              Reported.result_pure, and_true]
            exact ⟨⟨hcauses, h false _ _ hinner⟩, hrest⟩
          · rename_i hquote _ _ hopen
            have hclose : c ≠ ')' := by
              rintro rfl
              have := balanced_iff.mp hb
              contradiction
            have hrest : Balanced cs :=
              (balanced_singleton (by simpa using hquote) hopen hclose).of_append hb
            split
            · exact h.readConditional pos hrest
            · split
              · simp [Cause.isUnbalanced, hclose, Lexeme.rest, balanced_nil]
              · simp [Cause.isUnbalanced, hclose, Lexeme.rest, hrest]

theorem isUnbalanced_addToken (before : List Token) (t : Token) (start stop : Nat) :
    (addToken before t start stop).AllCauses (·.isUnbalanced = false) := by
  unfold addToken
  repeat' split
  all_goals simp [Cause.isUnbalanced, Cause.isOpenLiteral]

theorem ReadsBalanced.readRegion (h : ReadsBalanced nested) (before : List Token) (pos : Nat)
    {cs : List Char} (hb : Balanced cs) :
    (readRegion nested inArguments before pos cs).AllCauses (·.isUnbalanced = false) := by
  induction hlen : cs.length using Nat.strong_induction_on generalizing before pos cs with
  | _ n ih =>
    subst hlen
    cases hdrop : cs.dropWhile isGap with
    | nil =>
      rw [readRegion_nil hdrop]
      simp
    | cons c more =>
      have hshorter := @length_rest_lt_of_readLexeme nested inArguments
        (pos + (cs.takeWhile isGap).length) c cs more _ hdrop rfl
      obtain ⟨hcauses, hrest⟩ := @ReadsBalanced.readLexeme nested inArguments h
        (pos + (cs.takeWhile isGap).length) c more (hdrop ▸ hb.dropWhile_gap)
      rw [readRegion_cons hdrop, Reported.allCauses_bind]
      refine ⟨hcauses, ?_⟩
      revert hshorter hrest
      cases (Reckon.readLexeme nested inArguments _ c more).result with
      | token t stop rest =>
        intro hshorter hrest
        rw [Reported.allCauses_bind]
        exact ⟨isUnbalanced_addToken _ _ _ _, ih rest.length hshorter _ stop hrest rfl⟩
      | dropped stop rest =>
        exact fun hshorter hrest => ih rest.length hshorter before stop hrest rfl
      | last => simp

theorem readsBalanced_readNested (limit levels : Nat) :
    ReadsBalanced (readNested limit levels) := by
  induction levels with
  | zero =>
    intro inArguments pos cs _
    simp [readNested, Cause.isUnbalanced, Cause.isOpenLiteral]
  | succ levels ih => exact fun inArguments pos cs hb => ih.readRegion [] pos hb

/-! A text that ends in a literal gives a report of one. -/

theorem feedAll_append (q : Quotation) (cs more : List Char) :
    q.feedAll (cs ++ more) = (q.feedAll cs).feedAll more := List.foldl_append

/-- A branch either ends outside every literal or is the whole text. -/
theorem branchText_cases (stop : Char) (q : Quotation) (depth : Int) (cs : List Char) :
    ((branchText stop q depth cs).terminated = true ∧
      q.feedAll cs = Quotation.feedAll .outside (branchText stop q depth cs).rest) ∨
    ((branchText stop q depth cs).terminated = false ∧ (branchText stop q depth cs).rest = [] ∧
      (branchText stop q depth cs).ending = q.feedAll cs) := by
  induction cs generalizing q depth with
  | nil => exact .inr ⟨rfl, rfl, rfl⟩
  | cons c cs ih =>
    rw [branchText]
    split
    · rename_i hc
      simp only [Bool.and_eq_true] at hc
      obtain ⟨rfl, hfeed⟩ := feed_of_isPlain hc.1.1.1.1
      refine .inl ⟨rfl, ?_⟩
      rw [Quotation.feedAll, List.foldl_cons, hfeed]
      rfl
    · exact ih _ _

theorem feedAll_rest_branchText {stop : Char} {cs : List Char}
    (h : (branchText stop .outside 0 cs).terminated = false →
      (branchText stop .outside 0 cs).openPart? ≠ some .unevenQuotes) :
    Quotation.feedAll .outside (branchText stop .outside 0 cs).rest =
      Quotation.feedAll .outside cs := by
  rcases branchText_cases stop .outside 0 cs with ⟨-, hrest⟩ | ⟨hterminated, hrest, hending⟩
  · exact hrest.symm
  · by_contra hne
    rw [hrest, ← hending] at hne
    have hin : (branchText stop .outside 0 cs).ending.inString = true := by
      rw [Quotation.inString, bne_iff_ne]
      exact Ne.symm hne
    exact h hterminated (by rw [BranchText.openPart?, if_pos hin])

theorem feedAll_dropWhile_gap (cs : List Char) :
    Quotation.feedAll .outside (cs.dropWhile isGap) = Quotation.feedAll .outside cs := by
  have hgap : Balanced (cs.takeWhile isGap) := balanced_gap (List.all_eq_true.mp List.all_takeWhile)
  rw [← hgap.feedAll_append, List.takeWhile_append_dropWhile]

/-- What a conditional leaves to read ends as the text does, unless it reports a literal. -/
theorem feedAll_readConditional (pos : Nat) (cs : List Char)
    (h : (readConditional nested pos cs).AllCauses (·.isOpenLiteral = false)) :
    Quotation.feedAll .outside (readConditional nested pos cs).result.rest =
      Quotation.feedAll .outside cs := by
  unfold readConditional at h ⊢
  simp only [Reported.allCauses_bind, Reported.allCauses_reportAt?, Reported.allCauses_pure,
    Reported.result_bind, Reported.result_pure, Lexeme.rest] at h ⊢
  obtain ⟨htrue, hfalse, -⟩ := h
  rw [feedAll_rest_branchText, feedAll_dropWhile_gap, feedAll_rest_branchText,
    feedAll_dropWhile_gap]
  · intro hterminated hopen
    have := htrue .unevenQuotes (by rw [if_neg (by simp [hterminated]), hopen, Option.getD_some])
    contradiction
  · intro hterminated hopen
    have := hfalse .unevenQuotes (by rw [if_neg (by simp [hterminated]), hopen])
    contradiction

theorem feedAll_readParenthesized (pos : Nat) (cs : List Char)
    (h : (readParenthesized pos cs).AllCauses (·.isOpenLiteral = false)) :
    Quotation.feedAll .outside (readParenthesized pos cs).result.rest =
      Quotation.feedAll .outside cs := by
  rcases enclosed_cases .outside 0 cs with
    ⟨inner, rest, he, rfl, hinner⟩ | ⟨ending, more, he, hopen⟩
  · rw [readParenthesized, he, feedAll_append, (openAfter?_eq_some_iff.mp hinner).1]
    rfl
  · have hending := (openAfter?_eq_some_iff.mp hopen).1
    rw [readParenthesized, he] at h ⊢
    rw [hending]
    cases hin : ending.inString with
    | false =>
      simp only [Quotation.inString, bne_eq_false_iff_eq] at hin
      exact hin.symm
    | true =>
      simp only [hin, if_true, Reported.allCauses_bind, Reported.allCauses_reportAt] at h
      exact absurd h.1 (by decide)

/-- What a lexeme leaves to read ends as the text does, unless it reports a literal. -/
theorem feedAll_readLexeme (pos : Nat) (c : Char) (cs : List Char)
    (h : (readLexeme nested false pos c cs).AllCauses (·.isOpenLiteral = false)) :
    Quotation.feedAll .outside (readLexeme nested false pos c cs).result.rest =
      Quotation.feedAll .outside (c :: cs) := by
  have hbalanced {w rest : List Char} (hw : Balanced w) (hsplit : w ++ rest = c :: cs) :
      Quotation.feedAll .outside rest = Quotation.feedAll .outside (c :: cs) := by
    rw [← hsplit, hw.feedAll_append]
  revert h
  unfold readLexeme
  split
  · rename_i hc
    have hrest := hbalanced (balanced_readWord hc) (isName_readWord hc).2
    unfold readNamed
    simp only
    split
    · exact fun _ => hrest
    · rename_i inside _ heq
      intro h
      rw [heq] at hrest
      exact (feedAll_readParenthesized _ inside (Reported.allCauses_bind .. |>.mp h).1).trans hrest
    · exact fun _ => hrest
  · split
    · obtain ⟨w, hsplit, hw⟩ := readDigits_split (c :: cs)
      exact fun _ => hbalanced hw hsplit.symm
    · split
      · rename_i hquote
        intro h
        obtain ⟨hcauses, -⟩ := (Reported.allCauses_bind ..).mp h
        rcases readString_cases hquote pos (pos + 1) cs with
          ⟨w, hsplit, hclose, -⟩ | ⟨-, -, d, hd, hcause⟩
        · exact hbalanced (hclose.balanced hquote) (congrArg (List.cons c) hsplit.symm)
        · have := hcauses d hd
          rw [hcause] at this
          contradiction
      · rename_i hquote
        split
        · rename_i op size hop
          have hrest := hbalanced (balanced_ofSymbol? hop) (List.take_append_drop size (c :: cs))
          split <;> exact fun _ => hrest
        · split
          · rename_i hc
            subst hc
            exact fun h => feedAll_readParenthesized pos cs ((Reported.allCauses_bind ..).mp h).1
          · have hfeed : Quotation.feed .outside c = .outside := by simp [Quotation.feed, hquote]
            have hrest : Quotation.feedAll .outside cs = Quotation.feedAll .outside (c :: cs) := by
              rw [Quotation.feedAll, Quotation.feedAll, List.foldl_cons, hfeed]
            split
            · exact fun h => (feedAll_readConditional pos cs h).trans hrest
            · split
              · contradiction
              · exact fun _ => hrest

theorem feedAll_readRegion (before : List Token) (pos : Nat) (cs : List Char)
    (h : (readRegion nested false before pos cs).AllCauses (·.isOpenLiteral = false)) :
    Quotation.feedAll .outside cs = .outside := by
  induction hlen : cs.length using Nat.strong_induction_on generalizing before pos cs with
  | _ n ih =>
    subst hlen
    rw [← feedAll_dropWhile_gap]
    cases hdrop : cs.dropWhile isGap with
    | nil => rfl
    | cons c more =>
      have hshorter := @length_rest_lt_of_readLexeme nested false
        (pos + (cs.takeWhile isGap).length) c cs more _ hdrop rfl
      rw [readRegion_cons hdrop, Reported.allCauses_bind] at h
      obtain ⟨hlexeme, hafter⟩ := h
      rw [← feedAll_readLexeme _ c more hlexeme]
      revert hshorter hafter
      cases (readLexeme nested false _ c more).result with
      | token t stop rest =>
        intro hshorter hafter
        exact ih rest.length hshorter _ stop rest ((Reported.allCauses_bind ..).mp hafter).2 rfl
      | dropped stop rest =>
        exact fun hshorter hafter => ih rest.length hshorter before stop rest hafter rfl
      | last => exact fun _ _ => rfl

end
end Reckon
