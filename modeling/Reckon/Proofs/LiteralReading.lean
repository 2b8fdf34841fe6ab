import Reckon.Proofs.BalancedText
import Reckon.Proofs.EvaluationOutcome

/-!
Where a string literal ends.

A literal is read escape by escape, while the cutters pass over it character by character and take
only the one after a backslash out of consideration. Both find the same end: the further characters
of an escape are digits, which neither end a literal nor begin an escape.
-/

namespace Reckon

/-- Whether a character of a literal neither ends it nor begins an escape. -/
def IsBody (c : Char) : Prop := isQuote c = false ∧ c ≠ '\\'

theorem isBody_of_digit? {digit? : Char → Option Nat} (hsingle : digit? '\'' = none)
    (hdouble : digit? '"' = none) (hbackslash : digit? '\\' = none) {c : Char} {n : Nat}
    (h : digit? c = some n) : IsBody c := by
  refine ⟨?_, by rintro rfl; simp_all⟩
  cases hq : isQuote c with
  | false => rfl
  | true =>
    simp only [isQuote, Bool.or_eq_true, beq_iff_eq] at hq
    rcases hq with rfl | rfl <;> simp_all

theorem utf8Size_of_le {c d : Char} (h : c ≤ d) (hd : d.utf8Size = 1) : c.utf8Size = 1 := by
  rw [Char.utf8Size_eq_one_iff] at hd ⊢
  exact UInt32.le_trans h hd

theorem utf8Size_of_isDigit {c : Char} (h : c.isDigit) : c.utf8Size = 1 := by
  simp only [Char.isDigit, Bool.and_eq_true, decide_eq_true_eq] at h
  exact @utf8Size_of_le c '9' h.2 rfl

theorem utf8Size_of_hexDigit? {c : Char} {n : Nat} (h : hexDigit? c = some n) :
    c.utf8Size = 1 := by
  unfold hexDigit? at h
  split_ifs at h with hdigit hlower hupper
  · exact utf8Size_of_isDigit hdigit
  · exact utf8Size_of_le hlower.2 rfl
  · exact utf8Size_of_le hupper.2 rfl

theorem utf8Size_of_octalDigit? {c : Char} {n : Nat} (h : octalDigit? c = some n) :
    c.utf8Size = 1 := by
  unfold octalDigit? at h
  split_ifs at h with hdigit
  exact utf8Size_of_le hdigit.2 rfl

theorem utf8Size_of_simpleEscape? {c d : Char} (h : simpleEscape? c = some d) :
    c.utf8Size = 1 := by
  unfold simpleEscape? at h
  split at h
  case h_11 => contradiction
  all_goals rfl

namespace Escape

theorem size_ofCode (code size : Nat) (rest : List Char) : (ofCode code size rest).size = size := by
  unfold ofCode
  split <;> rfl

theorem readHex_split (cs : List Char) :
    ∃ w, cs = w ++ (readHex cs).rest ∧ (readHex cs).size = 1 + width w ∧ ∀ c ∈ w, IsBody c := by
  have hbody {c : Char} {n : Nat} (h : hexDigit? c = some n) : IsBody c :=
    isBody_of_digit? (by decide) (by decide) (by decide) h
  unfold readHex
  split
  · split
    · rename_i hm hn
      refine ⟨[_, _], by rw [rest_ofCode]; rfl, ?_, by simp [hbody hm, hbody hn]⟩
      rw [size_ofCode, width, width, utf8Size_of_hexDigit? hm, utf8Size_of_hexDigit? hn, width]
    · rename_i hm _
      refine ⟨[_], by rw [rest_ofCode]; rfl, ?_, by simp [hbody hm]⟩
      rw [size_ofCode, width, utf8Size_of_hexDigit? hm, width]
    · exact ⟨[], rfl, rfl, by simp⟩
  · split
    · rename_i hm
      refine ⟨[_], by rw [rest_ofCode]; rfl, ?_, by simp [hbody hm]⟩
      rw [size_ofCode, width, utf8Size_of_hexDigit? hm, width]
    · exact ⟨[], rfl, rfl, by simp⟩
  · exact ⟨[], rfl, rfl, by simp⟩

theorem readOctal?_split {c : Char} {cs : List Char} {e : Escape}
    (h : readOctal? (c :: cs) = some e) :
    ∃ w, cs = w ++ e.rest ∧ e.size = c.utf8Size + width w ∧ ∀ d ∈ w, IsBody d := by
  have hbody {c : Char} {n : Nat} (h : octalDigit? c = some n) : IsBody c :=
    isBody_of_digit? (by decide) (by decide) (by decide) h
  unfold readOctal? at h
  split at h
  · rename_i hcs
    obtain ⟨rfl, rfl⟩ := List.cons.inj hcs
    split at h
    · rename_i hm hn hk
      split at h
      · obtain rfl := Option.some.inj h
        refine ⟨[_, _], by rw [rest_ofCode]; rfl, ?_, by simp [hbody hn, hbody hk]⟩
        rw [size_ofCode, width, width, utf8Size_of_octalDigit? hm, utf8Size_of_octalDigit? hn,
          utf8Size_of_octalDigit? hk, width]
      · contradiction
    · contradiction
  · contradiction

/-- An escape takes the character after the backslash, and then only characters that the literal
goes past. -/
theorem read_split (c : Char) (cs : List Char) :
    ∃ w, cs = w ++ (read (c :: cs)).rest ∧ (read (c :: cs)).size = c.utf8Size + width w ∧
      ∀ d ∈ w, IsBody d := by
  unfold read
  simp only
  split
  · rename_i hsimple
    exact ⟨[], rfl, (utf8Size_of_simpleEscape? hsimple).symm, by simp⟩
  · split
    · rename_i hx
      subst hx
      exact readHex_split cs
    · split
      · rename_i he
        exact readOctal?_split he
      · exact ⟨[], rfl, rfl, by simp⟩

end Escape

/-- Whether something was amiss with an escape. -/
def Cause.isEscape : Cause → Bool
  | .loneBackslash | .illegalHexEscape | .unknownEscape _ | .nullCharacter => true
  | _ => false

namespace Escape

theorem isEscape_ofCode {code size : Nat} {rest : List Char} (cause : Cause)
    (h : (ofCode code size rest).cause? = some cause) : cause.isEscape := by
  unfold ofCode at h
  split at h
  · exact Option.some.inj h ▸ rfl
  · contradiction

theorem isEscape_readHex (cs : List Char) (cause : Cause) (h : (readHex cs).cause? = some cause) :
    cause.isEscape := by
  unfold readHex at h
  split at h
  · split at h
    · exact isEscape_ofCode cause h
    · exact isEscape_ofCode cause h
    · exact Option.some.inj h ▸ rfl
  · split at h
    · exact isEscape_ofCode cause h
    · exact Option.some.inj h ▸ rfl
  · exact Option.some.inj h ▸ rfl

theorem isEscape_read (cs : List Char) (cause : Cause) (h : (read cs).cause? = some cause) :
    cause.isEscape := by
  unfold read at h
  split at h
  · exact Option.some.inj h ▸ rfl
  · split at h
    · contradiction
    · split at h
      · exact isEscape_readHex _ cause h
      · split at h
        · rename_i e he
          unfold readOctal? at he
          split at he
          · split at he
            · split at he
              · exact isEscape_ofCode cause (Option.some.inj he ▸ h)
              · contradiction
            · contradiction
          · contradiction
        · exact Option.some.inj h ▸ rfl

end Escape

theorem openAfter?_of_inString {q : Quotation} (hq : q ≠ .outside) (depth : Nat) (c : Char)
    (cs : List Char) : openAfter? q depth (c :: cs) = openAfter? (q.feed c) depth cs := by
  simp [openAfter?, depthAfter, Quotation.isPlain, hq]

theorem feed_quote {quote : Char} (hquote : isQuote quote) :
    Quotation.feed .outside quote = .inside quote := by
  rw [Quotation.feed, if_pos hquote]

theorem feed_of_isBody {quote c : Char} (hquote : isQuote quote) (hc : IsBody c) :
    (Quotation.inside quote).feed c = .inside quote := by
  have hne : c ≠ quote := by
    rintro rfl
    rw [hc.1] at hquote
    contradiction
  rw [Quotation.feed, if_neg hc.2, if_neg hne]

/-- Whether the literal is left with the last character of the text and not before. -/
def Closes (q : Quotation) (w : List Char) : Prop :=
  q.feedAll w = .outside ∧ ∀ before, before <+: w → before ≠ w → q.feedAll before ≠ .outside

/-- Whether the literal is not left anywhere in the text. -/
def StaysOpen (q : Quotation) (w : List Char) : Prop :=
  ∀ before, before <+: w → q.feedAll before ≠ .outside

section
variable {q : Quotation} {quote c : Char} {v w : List Char}

theorem closes_cons : Closes q (c :: w) ↔ q ≠ .outside ∧ Closes (q.feed c) w := by
  have hprefix : (∀ before, before <+: c :: w → before ≠ c :: w → q.feedAll before ≠ .outside) ↔
      q ≠ .outside ∧
        ∀ before, before <+: w → before ≠ w → (q.feed c).feedAll before ≠ .outside := by
    simp [forall_prefix_cons, Quotation.feedAll]
  rw [Closes, hprefix]
  exact and_left_comm

theorem staysOpen_cons : StaysOpen q (c :: w) ↔ q ≠ .outside ∧ StaysOpen (q.feed c) w :=
  forall_prefix_cons

theorem closes_body (hquote : isQuote quote) (hv : ∀ c ∈ v, IsBody c)
    (hw : Closes (.inside quote) w) : Closes (.inside quote) (v ++ w) := by
  induction v with
  | nil => exact hw
  | cons c v ih =>
    obtain ⟨hc, hv⟩ := List.forall_mem_cons.mp hv
    rw [List.cons_append, closes_cons, feed_of_isBody hquote hc]
    exact ⟨by simp, ih hv⟩

theorem staysOpen_body (hquote : isQuote quote) (hv : ∀ c ∈ v, IsBody c)
    (hw : StaysOpen (.inside quote) w) : StaysOpen (.inside quote) (v ++ w) := by
  induction v with
  | nil => exact hw
  | cons c v ih =>
    obtain ⟨hc, hv⟩ := List.forall_mem_cons.mp hv
    rw [List.cons_append, staysOpen_cons, feed_of_isBody hquote hc]
    exact ⟨by simp, ih hv⟩

/-- The parentheses in a literal do not count. -/
theorem Closes.openAfter? (h : Closes q w) (depth : Nat) :
    openAfter? q depth w = some (.outside, depth) := by
  induction w generalizing q with
  | nil =>
    obtain rfl : q = .outside := h.1
    rfl
  | cons c w ih =>
    obtain ⟨hq, hrest⟩ := closes_cons.mp h
    rw [openAfter?_of_inString hq, ih hrest]

/-- A literal is read up to where the cutters leave it, or to the end of a text that does not leave
it. -/
theorem readString_cases (hquote : isQuote quote) (start pos : Nat) (cs : List Char) :
    (∃ w, cs = w ++ (readString quote start pos cs).result.rest ∧ Closes (.inside quote) w ∧
      (readString quote start pos cs).AllCauses (·.isEscape)) ∨
    ((readString quote start pos cs).result.rest = [] ∧ StaysOpen (.inside quote) cs ∧
      ∃ d ∈ (readString quote start pos cs).diagnostics, d.cause = .unterminatedString) := by
  have hinside : Quotation.inside quote ≠ .outside := by simp
  fun_induction readString quote start pos cs with
  | case1 pos =>
    refine .inr ⟨rfl, fun before hbefore => ?_, ⟨_, List.mem_cons_self, rfl⟩⟩
    rw [List.prefix_nil.mp hbefore]
    exact hinside
  | case2 pos cs =>
    have hbackslash : quote ≠ '\\' := by
      rintro rfl
      contradiction
    have hclose : (Quotation.inside quote).feed quote = .outside := by
      rw [Quotation.feed, if_neg hbackslash, if_pos rfl]
    refine .inl ⟨[quote], rfl, closes_cons.mpr ⟨hinside, ?_⟩, by simp⟩
    rw [hclose]
    exact ⟨rfl, fun before hbefore hne => absurd (List.prefix_nil.mp hbefore) hne⟩
  | case3 pos cs escape next hne ih =>
    have hfeed : (Quotation.inside quote).feed '\\' = .escaped quote := by simp [Quotation.feed]
    have hescaped : Quotation.escaped quote ≠ .outside := by simp
    simp only [Reported.result_bind, Reported.result_pure, Reported.allCauses_bind,
      Reported.allCauses_reportAt?, Reported.allCauses_pure, Reported.diagnostics_bind,
      Reported.diagnostics_pure, List.append_nil, and_true]
    cases cs with
    | nil =>
      rcases ih with ⟨w, hw, hclose, -⟩ | ⟨hrest, hopen, d, hd, hcause⟩
      · obtain ⟨rfl, -⟩ := List.append_eq_nil_iff.mp hw.symm
        exact absurd hclose.1 hinside
      · refine .inr ⟨hrest, ?_, d, List.mem_append_right _ hd, hcause⟩
        rw [staysOpen_cons, hfeed]
        refine ⟨hinside, fun before hbefore => ?_⟩
        rw [List.prefix_nil.mp hbefore]
        exact hescaped
    | cons d ds =>
      obtain ⟨v, hsplit, -, hv⟩ := Escape.read_split d ds
      have hnext : (Quotation.escaped quote).feed d = .inside quote := rfl
      rcases ih with ⟨w, hw, hclose, hcauses⟩ | ⟨hrest, hopen, d', hd', hcause⟩
      · refine .inl ⟨'\\' :: d :: (v ++ w), ?_, ?_, Escape.isEscape_read _, hcauses⟩
        · rw [List.cons_append, List.cons_append, List.append_assoc, ← hw, ← hsplit]
        · rw [closes_cons, hfeed, closes_cons, hnext]
          exact ⟨hinside, hescaped, closes_body hquote hv hclose⟩
      · refine .inr ⟨hrest, ?_, d', List.mem_append_right _ hd', hcause⟩
        rw [staysOpen_cons, hfeed, staysOpen_cons, hnext, hsplit]
        exact ⟨hinside, hescaped, staysOpen_body hquote hv hopen⟩
  | case4 pos c cs hne hbackslash ih =>
    have hfeed : (Quotation.inside quote).feed c = .inside quote := by
      rw [Quotation.feed, if_neg hbackslash, if_neg hne]
    simp only [Reported.result_bind, Reported.result_pure, Reported.allCauses_bind,
      Reported.allCauses_pure, Reported.diagnostics_bind, Reported.diagnostics_pure,
      List.append_nil, and_true]
    rcases ih with ⟨w, hsplit, hclose, hcauses⟩ | ⟨hrest, hopen, hreported⟩
    · refine .inl ⟨c :: w, ?_, closes_cons.mpr ⟨hinside, by rwa [hfeed]⟩, hcauses⟩
      rw [List.cons_append, ← hsplit]
    · exact .inr ⟨hrest, staysOpen_cons.mpr ⟨hinside, by rwa [hfeed]⟩, hreported⟩

end

end Reckon
