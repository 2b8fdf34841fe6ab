import Reckon.Proofs.RegionReading

/-!
Where a region leaves its first literal.

The cutters keep their quotation state character by character, while a literal is read escape by escape.
From a quote on, the state is outside again right behind the closing quote that the reading stops at, or
both come to the end of the region inside the literal.
-/

namespace Reckon

/-- Whether the state, outside before the text, is so again after its last character and after none
before. -/
structure EndsOutside (w : List Char) : Prop where
  outside : Quotation.feedAll .outside w = .outside
  inside : ∀ before, before <+: w → before ≠ [] → before ≠ w →
    Quotation.feedAll .outside before ≠ .outside

/-- Whether the state, outside before the text, is inside a literal after each of its characters. -/
def StaysInside (w : List Char) : Prop :=
  ∀ before, before <+: w → before ≠ [] → Quotation.feedAll .outside before ≠ .outside

instance (w : List Char) : Decidable (EndsOutside w) :=
  decidable_of_iff (Quotation.feedAll .outside w = .outside ∧ ∀ before ∈ w.inits, before ≠ [] →
      before ≠ w → Quotation.feedAll .outside before ≠ .outside)
    ⟨fun h => ⟨h.1, fun before hbefore => h.2 before ((List.mem_inits ..).mpr hbefore)⟩,
      fun h => ⟨h.outside, fun before hbefore => h.inside before ((List.mem_inits ..).mp hbefore)⟩⟩

instance (w : List Char) : Decidable (StaysInside w) :=
  decidable_of_iff (∀ before ∈ w.inits, before ≠ [] → Quotation.feedAll .outside before ≠ .outside)
    ⟨fun h before hbefore => h before ((List.mem_inits ..).mpr hbefore),
      fun h before hbefore => h before ((List.mem_inits ..).mp hbefore)⟩

/-- Whether a literal was reported to have no closing quote. -/
def Reported.LeftOpen (literal : Reported StringLiteral) : Prop :=
  ∃ d ∈ literal.diagnostics, d.cause = .unterminatedString

section
variable {q : Quotation} {quote : Char} {w w' rest rest' cs : List Char}

theorem Reported.not_leftOpen {literal : Reported StringLiteral}
    (h : literal.AllCauses (·.isEscape)) : ¬literal.LeftOpen := by
  rintro ⟨d, hd, hcause⟩
  have := h d hd
  rw [hcause] at this
  contradiction

theorem endsOutside_quote (hquote : isQuote quote) :
    EndsOutside (quote :: w) ↔ Closes (.inside quote) w := by
  have hfeed (v : List Char) :
      Quotation.feedAll .outside (quote :: v) = Quotation.feedAll (.inside quote) v :=
    congrArg (·.feedAll v) (feed_quote hquote)
  constructor
  · intro h
    obtain ⟨-, hinside⟩ := forall_prefix_cons.mp h.inside
    refine ⟨(hfeed w).symm.trans h.outside, fun before hbefore hne => ?_⟩
    rw [← hfeed]
    exact hinside before hbefore (by simp) (by simpa using hne)
  · intro h
    refine ⟨(hfeed w).trans h.1, forall_prefix_cons.mpr ⟨fun hne => absurd rfl hne, ?_⟩⟩
    intro before hbefore _ hne
    rw [hfeed]
    exact h.2 before hbefore (by simpa using hne)

theorem staysInside_quote (hquote : isQuote quote) :
    StaysInside (quote :: w) ↔ StaysOpen (.inside quote) w := by
  simp [StaysInside, StaysOpen, forall_prefix_cons, Quotation.feedAll, feed_quote hquote]

/-- A literal is left in one place only. -/
theorem Closes.append_inj (h : Closes q w) (h' : Closes q w') (heq : w ++ rest = w' ++ rest') :
    w = w' ∧ rest = rest' := by
  have hw : w = w' := by
    rcases List.prefix_or_prefix_of_prefix (List.prefix_append w rest)
      (heq ▸ List.prefix_append w' rest') with hprefix | hprefix
    · by_contra hne
      exact h'.2 w hprefix hne h.1
    · by_contra hne
      exact h.2 w' hprefix (Ne.symm hne) h'.1
  exact ⟨hw, List.append_cancel_left (hw ▸ heq)⟩

theorem Closes.not_staysOpen (h : Closes q w) : ¬StaysOpen q (w ++ rest) :=
  fun hopen => hopen w (List.prefix_append ..) h.1

theorem feed_of_open (hq : q = .inside quote ∨ q = .escaped quote) (c : Char) :
    q.feed c = .outside ∧ c = quote ∨ q.feed c = .inside quote ∨ q.feed c = .escaped quote := by
  rcases hq with rfl | rfl
  · simp only [Quotation.feed]
    split_ifs with hbackslash hc
    · exact .inr (.inr rfl)
    · exact .inl ⟨rfl, hc⟩
    · exact .inr (.inl rfl)
  · exact .inr (.inl rfl)

/-- What ends a literal is the quote that began it. -/
theorem Closes.getLast? (h : Closes q w) (hq : q = .inside quote ∨ q = .escaped quote) :
    w.getLast? = some quote := by
  induction w generalizing q with
  | nil =>
    obtain rfl : q = .outside := h.1
    simp at hq
  | cons c w ih =>
    obtain ⟨-, hrest⟩ := closes_cons.mp h
    cases w with
    | nil =>
      have hout : q.feed c = .outside := hrest.1
      rcases feed_of_open hq c with ⟨-, rfl⟩ | hopen
      · rfl
      · simp [hout] at hopen
    | cons d more =>
      have hin : q.feed c ≠ .outside := (closes_cons.mp hrest).1
      rw [List.getLast?_cons_cons]
      exact ih hrest ((feed_of_open hq c).resolve_left fun hout => hin hout.1)

/-- A literal stops as many bytes behind its start as were taken. -/
theorem stop_readString (hquote : isQuote quote) (pos : Nat)
    (h : cs = w ++ (readString quote pos (pos + 1) cs).result.rest) :
    (readString quote pos (pos + 1) cs).result.stop = pos + width (quote :: w) := by
  have hopening := rest_quote hquote pos cs
  obtain ⟨hrest, -⟩ :=
    @readString_region quote hquote ⟨pos, quote :: cs⟩ (pos + 1) cs hopening
  obtain ⟨taken, htext, hstop⟩ := hrest.trans hopening
  have htaken : taken = quote :: w := by
    refine List.append_cancel_right (htext.symm.trans ?_)
    exact congrArg (quote :: ·) h
  rw [← htaken]
  exact hstop

/-- In a region that starts with a quote, the state is outside again after just those characters that are
read as a literal, the last of them the closing quote, and it stays inside to the end of the region just
if the literal is read to there and found open. -/
theorem literal_ends_outside (hquote : isQuote quote) (pos : Nat) (cs : List Char) :
    let literal := readString quote pos (pos + 1) cs
    (∀ w rest, cs = w ++ rest → (EndsOutside (quote :: w) ↔
      ¬literal.LeftOpen ∧ w.getLast? = some quote ∧
        literal.result.rest = rest ∧ literal.result.stop = pos + width (quote :: w))) ∧
    (StaysInside (quote :: cs) ↔
      literal.LeftOpen ∧ literal.result.rest = [] ∧
        literal.result.stop = pos + width (quote :: cs)) := by
  simp only [endsOutside_quote hquote, staysInside_quote hquote]
  rcases readString_cases hquote pos (pos + 1) cs with
    ⟨w, hsplit, hclose, hcauses⟩ | ⟨hrest, hopen, hleft⟩
  · have hended := Reported.not_leftOpen hcauses
    have hnot : ¬StaysOpen (.inside quote) cs := by
      rw [hsplit]
      exact hclose.not_staysOpen
    refine ⟨fun w' rest' hsplit' => ⟨fun hclose' => ?_, fun ⟨_, _, hrest, _⟩ => ?_⟩,
      iff_of_false hnot fun h => hended h.1⟩
    · obtain ⟨rfl, hrest⟩ := hclose.append_inj hclose' (hsplit.symm.trans hsplit')
      exact ⟨hended, hclose.getLast? (.inl rfl), hrest, stop_readString hquote pos hsplit⟩
    · rw [hrest] at hsplit
      obtain rfl : w = w' := List.append_cancel_right (hsplit.symm.trans hsplit')
      exact hclose
  · have hstop := @stop_readString quote cs cs hquote pos (by rw [hrest, List.append_nil])
    refine ⟨fun w' rest' hsplit' => iff_of_false (fun hclose' => ?_) fun h => h.1 hleft,
      iff_of_true hopen ⟨hleft, hrest, hstop⟩⟩
    rw [hsplit'] at hopen
    exact hclose'.not_staysOpen hopen

/-- Escapes of every kind in one literal, the last without any of its digits, and a literal that a backslash
at the end of the region leaves open. -/
theorem literal_ends_outside_escapes :
    (let literal := readString '\'' 0 1 "\\x4g\\101\\18\\n\\q\\'\\\\\\x' + 'b'".toList
    ¬literal.LeftOpen ∧ literal.result.rest = " + 'b'".toList ∧ literal.result.stop = 23) ∧
    (let literal := readString '"' 7 8 "a'\\\"\\3\\".toList
    literal.LeftOpen ∧ literal.result.rest = [] ∧ literal.result.stop = 15) := by
  have hclosed := (@literal_ends_outside '\'' rfl 0
    "\\x4g\\101\\18\\n\\q\\'\\\\\\x' + 'b'".toList).1
    "\\x4g\\101\\18\\n\\q\\'\\\\\\x'".toList " + 'b'".toList (by decide)
  obtain ⟨hended, -, hrest, hstop⟩ := hclosed.mp (by decide)
  exact ⟨⟨hended, hrest, hstop⟩, (@literal_ends_outside '"' rfl 7 _).2.mp (by decide)⟩

end
end Reckon
