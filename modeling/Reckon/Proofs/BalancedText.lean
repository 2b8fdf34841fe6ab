import Mathlib.Data.List.Infix
import Reckon.Proofs.ClosedText

/-!
Balanced texts and how they are cut.

Any text may be balanced, whatever escapes its literals hold. The open parentheses are counted as
the cutters count them, so each cutter goes past a balanced text, and what it cuts out of one is
balanced and leaves a balanced rest.
-/

namespace Reckon

/-- How a character changes the number of open parentheses. -/
def parenthesisWeight (q : Quotation) (c : Char) : Int :=
  if !q.isPlain c then 0 else if c = '(' then 1 else if c = ')' then -1 else 0

/-- The opening parentheses of a text less the closing ones, those in literals apart. -/
def parenthesisCount (q : Quotation) : List Char → Int
  | [] => 0
  | c :: cs => parenthesisWeight q c + parenthesisCount (q.feed c) cs

/-- Every literal and every parenthesis of the text is closed, and none that is not open. -/
structure Balanced (cs : List Char) : Prop where
  literals : Quotation.feedAll .outside cs = .outside
  parentheses : parenthesisCount .outside cs = 0
  order : ∀ before, before <+: cs → 0 ≤ parenthesisCount .outside before

/-- Nowhere outside literals and parentheses does the character stand. -/
def Shields (stop : Char) (cs : List Char) : Prop :=
  ∀ before, before ++ [stop] <+: cs →
    Quotation.feedAll .outside before = .outside → parenthesisCount .outside before ≠ 0

instance (stop : Char) (cs : List Char) : Decidable (Shields stop cs) :=
  decidable_of_iff (∀ before ∈ cs.inits, before ++ [stop] <+: cs →
    Quotation.feedAll .outside before = .outside → parenthesisCount .outside before ≠ 0)
    ⟨fun h before hbefore => h before
      ((List.mem_inits ..).mpr ((List.prefix_append ..).trans hbefore)) hbefore,
      fun h before _ => h before⟩

/-! Balance by a single pass over the text. -/

/-- The quotation and the number of open parentheses after a text, unless one is closed that is not
open. -/
def openAfter? (q : Quotation) (depth : Nat) : List Char → Option (Quotation × Nat)
  | [] => some (q, depth)
  | c :: cs =>
    if q.isPlain c && c == ')' && depth == 0 then none
    else openAfter? (q.feed c) (depthAfter q depth c) cs

section
variable {q q' : Quotation} {depth depth' : Nat} {c : Char} {cs : List Char}

theorem forall_prefix_cons {p : List Char → Prop} :
    (∀ before, before <+: c :: cs → p before) ↔ p [] ∧ ∀ before, before <+: cs → p (c :: before) := by
  constructor
  · intro h
    exact ⟨h [] (List.nil_prefix ..), fun before hbefore =>
      h (c :: before) ((List.prefix_cons_inj c).mpr hbefore)⟩
  · rintro ⟨hempty, h⟩ before hbefore
    rcases List.prefix_cons_iff.mp hbefore with rfl | ⟨more, rfl, hmore⟩
    · exact hempty
    · exact h more hmore

theorem feed_of_isPlain (h : q.isPlain c) : q = .outside ∧ q.feed c = .outside := by
  simp only [Quotation.isPlain, Bool.and_eq_true, beq_iff_eq, Bool.not_eq_true'] at h
  obtain ⟨rfl, hc⟩ := h
  simp [Quotation.feed, hc]

theorem depthAfter_eq (h : ¬(q.isPlain c && c == ')' && depth == 0) = true) :
    (depthAfter q depth c : Int) = depth + parenthesisWeight q c := by
  unfold depthAfter parenthesisWeight
  split
  · simp
  · split
    · simp
    · split
      · have hpos : depth ≠ 0 := by
          rintro rfl
          simp_all
        omega
      · simp

theorem openAfter?_eq_some_iff :
    openAfter? q depth cs = some (q', depth') ↔
      q.feedAll cs = q' ∧ depth + parenthesisCount q cs = depth' ∧
        ∀ before, before <+: cs → 0 ≤ depth + parenthesisCount q before := by
  induction cs generalizing q depth with
  | nil =>
    simp only [openAfter?, Option.some.injEq, Prod.mk.injEq, Quotation.feedAll, List.foldl_nil,
      parenthesisCount, List.prefix_nil, forall_eq]
    refine and_congr_right fun _ => ?_
    omega
  | cons c cs ih =>
    have hfeed : q.feedAll (c :: cs) = (q.feed c).feedAll cs := rfl
    have hprefix : (∀ before, before <+: c :: cs → 0 ≤ (depth : Int) + parenthesisCount q before) ↔
        ∀ before, before <+: cs →
          0 ≤ depth + parenthesisWeight q c + parenthesisCount (q.feed c) before := by
      have hempty : 0 ≤ (depth : Int) + 0 := by omega
      simp only [forall_prefix_cons, parenthesisCount, hempty, true_and, Int.add_assoc]
    rw [openAfter?, hfeed, hprefix, parenthesisCount, ← Int.add_assoc]
    split
    · rename_i hc
      simp only [Bool.and_eq_true, beq_iff_eq] at hc
      obtain ⟨⟨hplain, rfl⟩, hdepth⟩ := hc
      have hweight : parenthesisWeight q ')' = -1 := by simp [parenthesisWeight, hplain]
      refine iff_of_false (by simp) fun h => ?_
      have := h.2.2 [] (List.nil_prefix ..)
      rw [hweight, hdepth, parenthesisCount] at this
      omega
    · rename_i hc
      rw [ih, depthAfter_eq hc]

theorem balanced_iff : Balanced cs ↔ openAfter? .outside 0 cs = some (.outside, 0) := by
  rw [openAfter?_eq_some_iff]
  constructor
  · intro h
    exact ⟨h.literals, by simpa using h.parentheses, by simpa using h.order⟩
  · rintro ⟨hliterals, hcount, horder⟩
    exact ⟨hliterals, by simpa using hcount, by simpa using horder⟩

instance (cs : List Char) : Decidable (Balanced cs) := decidable_of_iff _ balanced_iff.symm

theorem openAfter?_append (cs more : List Char) :
    openAfter? q depth (cs ++ more) =
      (openAfter? q depth cs).bind fun state => openAfter? state.1 state.2 more := by
  induction cs generalizing q depth with
  | nil => rfl
  | cons c cs ih =>
    simp only [List.cons_append, openAfter?]
    split
    · rfl
    · exact ih

theorem Balanced.openAfter?_append (h : Balanced cs) (more : List Char) :
    openAfter? .outside 0 (cs ++ more) = openAfter? .outside 0 more := by
  rw [Reckon.openAfter?_append, balanced_iff.mp h, Option.bind_some]

theorem Balanced.feedAll_append (h : Balanced cs) (more : List Char) :
    Quotation.feedAll .outside (cs ++ more) = Quotation.feedAll .outside more := by
  rw [Quotation.feedAll, List.foldl_append]
  exact congrArg (·.feedAll more) h.literals

theorem parenthesisCount_append (cs more : List Char) :
    parenthesisCount q (cs ++ more) =
      parenthesisCount q cs + parenthesisCount (q.feedAll cs) more := by
  induction cs generalizing q with
  | nil => simp [parenthesisCount, Quotation.feedAll]
  | cons c cs ih =>
    rw [List.cons_append, parenthesisCount, parenthesisCount, ih, Int.add_assoc]
    rfl

/-- What follows a balanced text is balanced by itself. -/
theorem Balanced.of_append (h : Balanced cs) {more : List Char} (hmore : Balanced (cs ++ more)) :
    Balanced more := by
  rw [balanced_iff, ← h.openAfter?_append, balanced_iff.mp hmore]

theorem Balanced.shields_of_append (h : Balanced cs) {stop : Char} {more : List Char}
    (hstop : Shields stop (cs ++ more)) : Shields stop more := by
  intro before hbefore hliterals hcount
  refine hstop (cs ++ before) ?_ (by rw [h.feedAll_append, hliterals]) ?_
  · rw [List.append_assoc]
    exact (List.prefix_append_right_inj cs).mpr hbefore
  · rw [parenthesisCount_append, h.parentheses, h.literals, hcount]
    rfl

theorem openAfter?_add (h : openAfter? q depth cs = some (q', depth')) (more : Nat) :
    openAfter? q (depth + more) cs = some (q', depth' + more) := by
  obtain ⟨hliterals, hcount, horder⟩ := openAfter?_eq_some_iff.mp h
  refine openAfter?_eq_some_iff.mpr ⟨hliterals, by omega, fun before hbefore => ?_⟩
  have := horder before hbefore
  omega

theorem Balanced.parenthesized (h : Balanced cs) : Balanced ('(' :: (cs ++ [')'])) := by
  have hopen : openAfter? .outside 0 ('(' :: (cs ++ [')'])) =
      openAfter? .outside 1 (cs ++ [')']) := rfl
  rw [balanced_iff, hopen, Reckon.openAfter?_append, openAfter?_add (balanced_iff.mp h) 1]
  rfl

theorem Balanced.append {more : List Char} (h : Balanced cs) (hmore : Balanced more) :
    Balanced (cs ++ more) := by
  rw [balanced_iff, h.openAfter?_append, balanced_iff.mp hmore]

end

/-! The cutters go past what is balanced. -/

section
variable {α : Type} {p : Char → Prop} {push : Char → α → α} {cut : Quotation → Nat → List Char → α}

theorem Keeps.openAfter? (hcut : Keeps p push cut) {q q' : Quotation} {depth depth' : Nat}
    {w : List Char} (h : Reckon.openAfter? q depth w = some (q', depth'))
    (hp : ∀ before c after, w = before ++ c :: after →
      Reckon.openAfter? q depth before = some (.outside, 0) → c = '(' ∨ p c) (rest : List Char) :
    cut q depth (w ++ rest) = w.foldr push (cut q' depth' rest) := by
  induction w generalizing q depth with
  | nil =>
    obtain ⟨rfl, rfl⟩ := Prod.mk.inj (Option.some.inj h)
    rfl
  | cons c w ih =>
    rw [Reckon.openAfter?] at h
    split at h
    · contradiction
    · rename_i hc
      have hstep := hcut q depth c (w ++ rest) fun hplain hdepth => by
        refine ⟨fun hclose => hc (by simp_all), hp [] c w rfl ?_⟩
        rw [hdepth, (feed_of_isPlain hplain).1]
        rfl
      rw [List.cons_append, hstep, List.foldr_cons, ih h]
      intro before d after hw hbefore
      refine hp (c :: before) d after (by rw [hw, List.cons_append]) ?_
      rw [Reckon.openAfter?, if_neg hc, hbefore]

end

theorem keeps_openAfter? (p : Char → Prop) : Keeps p (fun _ state => state) openAfter? := by
  intro q depth c cs h
  have hne : ¬(q.isPlain c && c == ')' && depth == 0) = true := by
    simp only [Bool.and_eq_true, beq_iff_eq]
    rintro ⟨⟨hq, hc⟩, hd⟩
    exact (h hq hd).1 hc
  rw [openAfter?, if_neg hne]

theorem Closed.balanced {p : Char → Prop} {w : List Char} (h : Closed p w) : Balanced w := by
  have := @Keeps.closed _ _ _ _ (keeps_openAfter? p) _ _ h 0 (fun _ _ hc => hc) []
  rw [List.append_nil, List.foldr_fixed] at this
  exact balanced_iff.mpr this

/-- A text that no literal or parenthesis is part of. -/
theorem balanced_of_forall {w : List Char}
    (h : ∀ c ∈ w, isQuote c = false ∧ c ≠ '(' ∧ c ≠ ')') : Balanced w :=
  @Closed.balanced (fun _ => True) w (.of_forall fun c hc =>
    ⟨(h c hc).1, (h c hc).2.1, (h c hc).2.2, trivial⟩)

theorem balanced_singleton {c : Char} (hq : isQuote c = false) (hopen : c ≠ '(')
    (hclose : c ≠ ')') : Balanced [c] :=
  balanced_of_forall (by simp [hq, hopen, hclose])

theorem balanced_nil : Balanced [] := balanced_iff.mpr rfl

/-- A parenthesis that follows a balanced text is the one that closes. -/
theorem Balanced.enclosed {inner : List Char} (h : Balanced inner) (rest : List Char) :
    enclosed .outside 0 (inner ++ ')' :: rest) = ⟨inner, some rest, .outside⟩ := by
  have hcut := (keeps_enclosed fun _ => True).openAfter? (balanced_iff.mp h)
    (fun _ _ _ _ _ => .inr trivial) (')' :: rest)
  have hend : Reckon.enclosed .outside 0 (')' :: rest) = ⟨[], some rest, .outside⟩ := rfl
  rw [hcut, Enclosed.foldr_push, hend, List.append_nil]

theorem readParenthesized_balanced {inner : List Char} (h : Balanced inner) (pos : Nat)
    (rest : List Char) :
    readParenthesized pos (inner ++ ')' :: rest) =
      pure ⟨pos + 1, inner, pos + 1 + width inner + 1, rest⟩ := by
  unfold readParenthesized
  rw [h.enclosed]

/-- The end of a branch is not found in a balanced text that shields it. -/
theorem Balanced.branchText {text : List Char} {stop : Char} (h : Balanced text)
    (hstop : Shields stop text) (rest : List Char) :
    branchText stop .outside 0 (text ++ rest) =
      { branchText stop .outside 0 rest with
        text := text ++ (branchText stop .outside 0 rest).text } := by
  have hcut := (keeps_branchText stop).openAfter? (balanced_iff.mp h) ?_ rest
  · rwa [BranchText.foldr_push] at hcut
  · intro before c after htext hbefore
    refine .inr ?_
    rintro rfl
    obtain ⟨hliterals, hcount, -⟩ := openAfter?_eq_some_iff.mp hbefore
    have hprefix : before ++ [c] <+: text := ⟨after, by simp [htext]⟩
    exact hstop before hprefix hliterals (by simpa using hcount)

/-! What is cut out of a text, and what is left of it. -/

section
variable {q q' : Quotation} {depth : Nat} {cs : List Char}

/-- The cut at a closing parenthesis finds one after a balanced text, or one is left open. -/
theorem enclosed_cases (q : Quotation) (depth : Nat) (cs : List Char) :
    (∃ inner rest, enclosed q depth cs = ⟨inner, some rest, .outside⟩ ∧ cs = inner ++ ')' :: rest ∧
      openAfter? q depth inner = some (.outside, 0)) ∨
    (∃ ending more, enclosed q depth cs = ⟨cs, none, ending⟩ ∧
      openAfter? q (depth + 1) cs = some (ending, more + 1)) := by
  induction cs generalizing q depth with
  | nil => exact .inr ⟨q, depth, rfl, rfl⟩
  | cons c cs ih =>
    by_cases hc : (q.isPlain c && c == ')' && depth == 0) = true
    · simp only [Bool.and_eq_true, beq_iff_eq] at hc
      obtain ⟨⟨hplain, rfl⟩, rfl⟩ := hc
      obtain ⟨rfl, -⟩ := feed_of_isPlain hplain
      exact .inl ⟨[], cs, rfl, rfl, rfl⟩
    · have henclosed : enclosed q depth (c :: cs) =
          Enclosed.push c (enclosed (q.feed c) (depthAfter q depth c) cs) := by
        rw [enclosed, if_neg hc]
        rfl
      have hone : ¬(q.isPlain c && c == ')' && depth + 1 == 0) = true := by simp
      have hdepth : depthAfter q (depth + 1) c = depthAfter q depth c + 1 := by
        have h := depthAfter_eq hc
        have h' := depthAfter_eq hone
        omega
      rcases ih (q.feed c) (depthAfter q depth c) with ⟨inner, rest, he, rfl, hinner⟩ |
        ⟨ending, more, he, hopen⟩
      · refine .inl ⟨c :: inner, rest, by rw [henclosed, he]; rfl, rfl, ?_⟩
        rw [openAfter?, if_neg hc, hinner]
      · refine .inr ⟨ending, more, by rw [henclosed, he]; rfl, ?_⟩
        rw [openAfter?, if_neg hone, hdepth, hopen]

theorem enclosed_of_openAfter? (h : openAfter? q (depth + 1) cs = some (q', 0)) :
    ∃ inner rest, enclosed q depth cs = ⟨inner, some rest, .outside⟩ ∧ cs = inner ++ ')' :: rest ∧
      openAfter? q depth inner = some (.outside, 0) := by
  rcases enclosed_cases q depth cs with hcut | ⟨ending, more, -, hopen⟩
  · exact hcut
  · rw [hopen] at h
    simp at h

/-- A branch that is cut out of a balanced text is balanced, and so is the rest. -/
theorem branchText_of_openAfter? (stop : Char) (h : openAfter? q depth cs = some (.outside, 0)) :
    openAfter? q depth (branchText stop q depth cs).text = some (.outside, 0) ∧
      Balanced (branchText stop q depth cs).rest ∧
      (branchText stop q depth cs).ending = .outside ∧ (branchText stop q depth cs).depth = 0 := by
  induction cs generalizing q depth with
  | nil =>
    obtain ⟨rfl, rfl⟩ := Prod.mk.inj (Option.some.inj h)
    exact ⟨rfl, balanced_iff.mpr rfl, rfl, rfl⟩
  | cons c cs ih =>
    rw [openAfter?] at h
    split at h
    · contradiction
    · rename_i hc
      by_cases hstop :
          (q.isPlain c && c != '(' && c != ')' && c == stop && (depth : Int) == 0) = true
      · have hbranch : branchText stop q depth (c :: cs) = ⟨[], cs, true, .outside, depth⟩ := by
          rw [branchText, if_pos hstop]
        simp only [Bool.and_eq_true, beq_iff_eq, bne_iff_ne] at hstop
        obtain ⟨⟨⟨⟨hplain, hopen⟩, hclose⟩, -⟩, hdepth⟩ := hstop
        obtain rfl := Int.natCast_eq_zero.mp hdepth
        obtain ⟨rfl, hfeed⟩ := feed_of_isPlain hplain
        have hafter : depthAfter .outside 0 c = 0 := by simp [depthAfter, hopen, hclose]
        rw [hfeed, hafter] at h
        rw [hbranch]
        exact ⟨rfl, balanced_iff.mpr h, rfl, rfl⟩
      · have hbranch : branchText stop q depth (c :: cs) =
            BranchText.push c (branchText stop (q.feed c) (depthAfter q depth c) cs) := by
          have hdepth : (depthAfter q depth c : Int) =
              if !q.isPlain c then (depth : Int)
              else if c = '(' then depth + 1
              else if c = ')' then depth - 1
              else depth := by
            rw [depthAfter_eq hc, parenthesisWeight]
            split
            · simp
            · split
              · rfl
              · split
                · rfl
                · simp
          rw [branchText, if_neg hstop, hdepth]
          rfl
        have hih := ih h
        rw [hbranch]
        refine ⟨?_, hih.2⟩
        rw [BranchText.push, openAfter?, if_neg hc, hih.1]

end

end Reckon
