import Reckon.Canonical
import Reckon.Source.Tokens

/-!
Texts whose literals and parentheses are closed, and how they are cut.

Both cutters look for a character outside literals and parentheses. They pass over a closed text as a
whole, whatever follows it. The texts of tokens are closed: what is quoted ends with its own quote,
and it is read back without its null characters, since the escape of one stands for nothing.
-/

namespace Reckon

theorem hexDigit?_hexDigit : ∀ n < 16, hexDigit? (hexDigit n) = some n := by decide

theorem hexDigit_ne_quote : ∀ n < 16, hexDigit n ≠ '\'' ∧ hexDigit n ≠ '\\' := by decide

theorem utf8Size_hexDigit : ∀ n < 16, (hexDigit n).utf8Size = 1 := by decide

theorem quotedChar_cases (c : Char) :
    (∃ d, quotedChar c = ['\\', d] ∧ simpleEscape? d = some c ∧ d.utf8Size = 1 ∧ c ≠ '\x00') ∨
    (∃ m n, quotedChar c = ['\\', 'x', hexDigit m, hexDigit n] ∧ m < 16 ∧ n < 16 ∧
      16 * m + n = c.toNat) ∨
    (quotedChar c = [c] ∧ c ≠ '\'' ∧ c ≠ '\\' ∧ c ≠ '\x00') := by
  unfold quotedChar
  split
  · exact .inl ⟨'\\', rfl, rfl, rfl, by decide⟩
  · exact .inl ⟨'\'', rfl, rfl, rfl, by decide⟩
  · exact .inl ⟨'n', rfl, rfl, rfl, by decide⟩
  · exact .inl ⟨'t', rfl, rfl, rfl, by decide⟩
  · exact .inl ⟨'r', rfl, rfl, rfl, by decide⟩
  · rename_i hbackslash hquote _ _ _
    split
    · refine .inr (.inl ⟨c.toNat / 16, c.toNat % 16, rfl, ?_, ?_, ?_⟩) <;> omega
    · rename_i hcontrol
      refine .inr (.inr ⟨rfl, hquote, hbackslash, ?_⟩)
      rintro rfl
      exact hcontrol (.inl (by decide))

theorem width_append (cs more : List Char) : width (cs ++ more) = width cs + width more := by
  induction cs with
  | nil => simp [width]
  | cons c cs ih => rw [List.cons_append, width, width, ih, Nat.add_assoc]

theorem width_eq_length {cs : List Char} (h : ∀ c ∈ cs, c.utf8Size = 1) :
    width cs = cs.length := by
  induction cs with
  | nil => rfl
  | cons c cs ih =>
    obtain ⟨hc, hcs⟩ := List.forall_mem_cons.mp h
    rw [width, hc, ih hcs, List.length_cons, Nat.add_comm]

/-- The escape of a null character stands for nothing and is reported. -/
theorem Escape.ofCode_toNat (c : Char) (size : Nat) (rest : List Char) :
    Escape.ofCode c.toNat size rest = ⟨[c].filter (· ≠ '\x00'), size, rest,
      if c = '\x00' then some .nullCharacter else none⟩ := by
  unfold Escape.ofCode
  split
  · rename_i h
    have hc : c = '\x00' := Char.toNat_inj.mp h
    simp [hc]
  · rename_i h
    have hc : c ≠ '\x00' := by
      rintro rfl
      exact h rfl
    simp [hc, Char.ofNat_toNat]

/-- What stands for a character is read as that character, whatever follows it. -/
theorem readString_quotedChar (start pos : Nat) (c : Char) (cs : List Char) :
    readString '\'' start pos (quotedChar c ++ cs) = (do
      let next := pos + width (quotedChar c)
      reportAt? pos next (if c = '\x00' then some .nullCharacter else none)
      let literal ← readString '\'' start next cs
      pure { literal with value := [c].filter (· ≠ '\x00') ++ literal.value }) := by
  rcases quotedChar_cases c with ⟨d, hc, hd, hsize, hnull⟩ | ⟨m, n, hc, hm, hn, hcode⟩ |
    ⟨hc, hquote, hbackslash, hnull⟩
  · have hread : Escape.read (d :: cs) = ⟨[c], 1, cs, none⟩ := by
      simp [Escape.read, hd]
    have hwidth : pos + width (quotedChar c) = pos + 1 + 1 := by
      rw [hc, width, width, width, hsize]
      rfl
    rw [hwidth, hc, List.cons_append, List.cons_append, List.nil_append, readString]
    simp [hread, hnull]
  · have hx : simpleEscape? 'x' = none := rfl
    have hread : Escape.read ('x' :: hexDigit m :: hexDigit n :: cs) =
        Escape.ofCode c.toNat 3 cs := by
      simp only [Escape.read, hx, if_true, Escape.readHex, hexDigit?_hexDigit m hm,
        hexDigit?_hexDigit n hn, hcode]
    have hwidth : pos + width (quotedChar c) = pos + 1 + 3 := by
      rw [hc, width, width, width, width, width, utf8Size_hexDigit m hm, utf8Size_hexDigit n hn]
      rfl
    rw [hwidth, hc]
    simp only [List.cons_append, List.nil_append]
    rw [readString]
    simp [hread, Escape.ofCode_toNat]
  · have hwidth : pos + width (quotedChar c) = pos + c.utf8Size := by
      rw [hc, width, width, Nat.add_zero]
    rw [hwidth, hc, List.cons_append, List.nil_append, readString]
    simp [hquote, hbackslash, hnull, reportAt?]

/-- One report for each null character of a text that is quoted at `pos`, where its escape stands. -/
def nullReports (pos : Nat) : List Char → List Diagnostic
  | [] => []
  | c :: cs =>
    let next := pos + width (quotedChar c)
    if c = '\x00' then ⟨.nullCharacter, some ⟨pos, next⟩⟩ :: nullReports next cs
    else nullReports next cs

/-- A literal is read back without null characters, and each of them is reported. -/
theorem readString_quotedChars (start pos : Nat) (cs rest : List Char) :
    readString '\'' start pos (cs.flatMap quotedChar ++ '\'' :: rest) =
      ⟨⟨cs.filter (· ≠ '\x00'), pos + width (cs.flatMap quotedChar) + 1, rest⟩,
        nullReports pos cs⟩ := by
  induction cs generalizing pos with
  | nil =>
    rw [List.flatMap_nil, List.nil_append, readString, if_pos rfl]
    rfl
  | cons c cs ih =>
    rw [List.flatMap_cons, List.append_assoc, readString_quotedChar]
    apply Reported.ext'
    · simp only [Reported.result_bind, Reported.result_pure, ih, width_append, Nat.add_assoc,
        ← List.filter_append, List.singleton_append]
    · simp only [Reported.diagnostics_bind, Reported.diagnostics_pure, ih, List.append_nil,
        nullReports]
      by_cases hc : c = '\x00'
      · rw [if_pos hc, if_pos hc]
        rfl
      · rw [if_neg hc, if_neg hc]
        rfl

/-- Texts in which every literal and parenthesis is closed, and the characters outside all of them
have a property. -/
inductive Closed : (Char → Prop) → List Char → Prop where
  | nil {p} : Closed p []
  | char {p c cs} : isQuote c = false → c ≠ '(' → c ≠ ')' → p c → Closed p cs → Closed p (c :: cs)
  | quoted {p cs} (s : List Char) : Closed p cs → Closed p (quotedChars s ++ cs)
  | parenthesized {p inner cs} : Closed (fun _ => True) inner → Closed p cs →
    Closed p ('(' :: (inner ++ ')' :: cs))

namespace Closed

theorem append {p : Char → Prop} {v w : List Char} (hv : Closed p v) (hw : Closed p w) :
    Closed p (v ++ w) := by
  induction hv with
  | nil => exact hw
  | char hq hopen hclose hp _ ih => exact char hq hopen hclose hp (ih hw)
  | quoted s _ ih =>
    rw [List.append_assoc]
    exact quoted s (ih hw)
  | parenthesized hinner _ _ ih =>
    rw [List.cons_append, List.append_assoc, List.cons_append]
    exact parenthesized hinner (ih hw)

theorem mono {p r : Char → Prop} (h : ∀ c, p c → r c) {w : List Char} (hw : Closed p w) :
    Closed r w := by
  induction hw with
  | nil => exact nil
  | char hq hopen hclose hp _ ih => exact char hq hopen hclose (h _ hp) (ih h)
  | quoted s _ ih => exact quoted s (ih h)
  | parenthesized hinner _ _ ih => exact parenthesized hinner (ih h)

theorem of_forall {p : Char → Prop} {w : List Char}
    (h : ∀ c ∈ w, isQuote c = false ∧ c ≠ '(' ∧ c ≠ ')' ∧ p c) : Closed p w := by
  induction w with
  | nil => exact nil
  | cons c w ih =>
    obtain ⟨hq, hopen, hclose, hp⟩ := h c List.mem_cons_self
    exact char hq hopen hclose hp (ih fun d hd => h d (List.mem_cons_of_mem c hd))

theorem quotedChars {p : Char → Prop} (s : List Char) : Closed p (quotedChars s) := by
  have := quoted (p := p) s nil
  rwa [List.append_nil] at this

theorem parentheses {p : Char → Prop} {inner : List Char} (h : Closed (fun _ => True) inner) :
    Closed p ('(' :: inner ++ [')']) := parenthesized h nil

theorem blank {p : Char → Prop} {w : List Char} (hp : p ' ') (hw : Closed p w) :
    Closed p (' ' :: w) := char rfl (by decide) (by decide) hp hw

theorem padded {p : Char → Prop} {w : List Char} (hp : p ' ') (hw : Closed p w) :
    Closed p (' ' :: w ++ [' ']) := (hw.blank hp).append (nil.blank hp)

end Closed

/-- The number of open parentheses after one more character. -/
def depthAfter (q : Quotation) (depth : Nat) (c : Char) : Nat :=
  if !q.isPlain c then depth
  else if c = '(' then depth + 1
  else if c = ')' then depth - 1
  else depth

/-- A way to cut a text that goes past characters in literals and in parentheses, and past those with
a property outside. -/
def Keeps {α : Type} (p : Char → Prop) (push : Char → α → α)
    (cut : Quotation → Nat → List Char → α) : Prop :=
  ∀ q depth c cs, (q.isPlain c → depth = 0 → c ≠ ')' ∧ (c = '(' ∨ p c)) →
    cut q depth (c :: cs) = push c (cut (q.feed c) (depthAfter q depth c) cs)

section
variable {α : Type} {p : Char → Prop} {push : Char → α → α}
  {cut : Quotation → Nat → List Char → α}

theorem Keeps.inString (hcut : Keeps p push cut) {q : Quotation} (hq : q ≠ .outside) (depth : Nat)
    (c : Char) (cs : List Char) : cut q depth (c :: cs) = push c (cut (q.feed c) depth cs) := by
  have hplain : q.isPlain c = false := by simp [Quotation.isPlain, hq]
  have := hcut q depth c cs (by simp [hplain])
  rwa [depthAfter, hplain] at this

theorem Keeps.quotedChar (hcut : Keeps p push cut) (depth : Nat) (c : Char) (cs : List Char) :
    cut (.inside '\'') depth (quotedChar c ++ cs) =
      (quotedChar c).foldr push (cut (.inside '\'') depth cs) := by
  rcases quotedChar_cases c with ⟨d, hc, -, -, -⟩ | ⟨m, n, hc, hm, hn, -⟩ | ⟨hc, hquote, hbackslash, -⟩
  · rw [hc]
    simp [hcut.inString, Quotation.feed]
  · rw [hc]
    simp [hcut.inString, Quotation.feed, hexDigit_ne_quote m hm, hexDigit_ne_quote n hn]
  · rw [hc]
    simp [hcut.inString, Quotation.feed, hquote, hbackslash]

theorem Keeps.quotedBody (hcut : Keeps p push cut) (depth : Nat) (s cs : List Char) :
    cut (.inside '\'') depth (s.flatMap Reckon.quotedChar ++ cs) =
      (s.flatMap Reckon.quotedChar).foldr push (cut (.inside '\'') depth cs) := by
  induction s with
  | nil => rfl
  | cons c s ih =>
    rw [List.flatMap_cons, List.append_assoc, hcut.quotedChar, ih, List.foldr_append]

theorem Keeps.quotedChars (hcut : Keeps p push cut) (depth : Nat) (s cs : List Char) :
    cut .outside depth (quotedChars s ++ cs) =
      (quotedChars s).foldr push (cut .outside depth cs) := by
  have hfirst := hcut .outside depth '\'' (s.flatMap Reckon.quotedChar ++ '\'' :: cs)
    (by simp [Quotation.isPlain, isQuote])
  have hlast := hcut.inString (q := .inside '\'') (by simp) depth '\'' cs
  have hbody := hcut.quotedBody depth s ('\'' :: cs)
  unfold Reckon.quotedChars
  simp only [List.cons_append, List.append_assoc, List.foldr_cons, List.foldr_append,
    List.nil_append, List.foldr_nil]
  rw [hfirst]
  simp only [Quotation.feed, depthAfter, Quotation.isPlain, isQuote]
  simp [hbody, hlast, Quotation.feed]

/-- A closed text is passed over as a whole. -/
theorem Keeps.closed (hcut : Keeps p push cut) {r : Char → Prop} {w : List Char} (hw : Closed r w)
    {depth : Nat} (hr : depth = 0 → ∀ c, r c → p c) (rest : List Char) :
    cut .outside depth (w ++ rest) = w.foldr push (cut .outside depth rest) := by
  induction hw generalizing depth rest with
  | nil => rfl
  | @char r c cs hq hopen hclose hc _ ih =>
    have hstep := hcut .outside depth c (cs ++ rest)
      (fun _ hd => ⟨hclose, .inr (hr hd c hc)⟩)
    have hfeed : Quotation.feed .outside c = .outside := by simp [Quotation.feed, hq]
    have hdepth : depthAfter .outside depth c = depth := by simp [depthAfter, hopen, hclose]
    rw [List.cons_append, hstep, hfeed, hdepth, ih hr, List.foldr_cons]
  | quoted s _ ih =>
    rw [List.append_assoc, hcut.quotedChars, ih hr, List.foldr_append]
  | @parenthesized r inner cs _ _ ihinner ih =>
    have hopen := hcut .outside depth '(' (inner ++ ')' :: (cs ++ rest))
      (fun _ _ => ⟨by decide, .inl rfl⟩)
    have hclose := hcut .outside (depth + 1) ')' (cs ++ rest)
      (fun _ hd => absurd hd (Nat.succ_ne_zero depth))
    have hinner := @ihinner (depth + 1) (fun hd => absurd hd (Nat.succ_ne_zero depth))
      (')' :: (cs ++ rest))
    have hcs := ih hr rest
    have hafter : depthAfter .outside depth '(' = depth + 1 := rfl
    have hbefore : depthAfter .outside (depth + 1) ')' = depth := rfl
    have hfeed : Quotation.feed .outside '(' = .outside := rfl
    have hfeed' : Quotation.feed .outside ')' = .outside := rfl
    rw [hfeed, hafter] at hopen
    rw [hfeed', hbefore] at hclose
    simp only [List.cons_append, List.append_assoc, List.foldr_cons, List.foldr_append]
    rw [hopen, hinner, hclose, hcs]

end

/-- A character that stays inside the parentheses. -/
def Enclosed.push (c : Char) (e : Enclosed) : Enclosed := { e with interior := c :: e.interior }

/-- A character that stays in the branch. -/
def BranchText.push (c : Char) (b : BranchText) : BranchText := { b with text := c :: b.text }

theorem Enclosed.foldr_push (w : List Char) (e : Enclosed) :
    w.foldr Enclosed.push e = { e with interior := w ++ e.interior } := by
  induction w with
  | nil => rfl
  | cons c w ih => rw [List.foldr_cons, ih, Enclosed.push, List.cons_append]

theorem BranchText.foldr_push (w : List Char) (b : BranchText) :
    w.foldr BranchText.push b = { b with text := w ++ b.text } := by
  induction w with
  | nil => rfl
  | cons c w ih => rw [List.foldr_cons, ih, BranchText.push, List.cons_append]

theorem keeps_enclosed (p : Char → Prop) : Keeps p Enclosed.push enclosed := by
  intro q depth c cs h
  have hne : ¬(q.isPlain c && c == ')' && depth == 0) = true := by
    simp only [Bool.and_eq_true, beq_iff_eq]
    rintro ⟨⟨hq, hc⟩, hd⟩
    exact (h hq hd).1 hc
  rw [enclosed, if_neg hne]
  rfl

theorem keeps_branchText (stop : Char) :
    Keeps (· ≠ stop) BranchText.push (fun q depth => branchText stop q (depth : Int)) := by
  intro q depth c cs h
  have hne : ¬(q.isPlain c && c != '(' && c != ')' && c == stop && (depth : Int) == 0) = true := by
    simp only [Bool.and_eq_true, beq_iff_eq, bne_iff_ne]
    rintro ⟨⟨⟨⟨hq, hopen⟩, -⟩, hc⟩, hd⟩
    exact (h hq (Int.natCast_eq_zero.mp hd)).2.elim hopen fun hne => hne hc
  have hdepth : (depthAfter q depth c : Int) =
      if !q.isPlain c then (depth : Int)
      else if c = '(' then depth + 1
      else if c = ')' then depth - 1
      else depth := by
    unfold depthAfter
    split
    · rfl
    · rename_i hq
      split
      · rfl
      · split
        · rename_i hc
          have hpos : depth ≠ 0 := fun hd => (h (by simpa using hq) hd).1 hc
          omega
        · rfl
  simp only [branchText, if_neg hne, hdepth]
  rfl

/-- The cut at a closing parenthesis goes past every closed text. -/
theorem enclosed_append {p : Char → Prop} {w : List Char} (hw : Closed p w) (rest : List Char) :
    enclosed .outside 0 (w ++ rest) =
      { enclosed .outside 0 rest with interior := w ++ (enclosed .outside 0 rest).interior } := by
  rw [(keeps_enclosed p).closed hw (fun _ _ h => h), Enclosed.foldr_push]

/-- The cut at the end of a branch goes past a closed text without that end. -/
theorem branchText_append {stop : Char} {w : List Char} (hw : Closed (· ≠ stop) w)
    (rest : List Char) :
    branchText stop .outside 0 (w ++ rest) =
      { branchText stop .outside 0 rest with
        text := w ++ (branchText stop .outside 0 rest).text } := by
  have := @Keeps.closed _ _ _ _ (keeps_branchText stop) _ _ hw 0 (fun _ _ h => h) rest
  rwa [BranchText.foldr_push] at this

end Reckon
