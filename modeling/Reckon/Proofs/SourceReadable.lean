import Reckon.Proofs.LexemeReading

/-!
What a source is read as can be spelled.

Whatever the source, the sequence it is read as is readable. Reading keeps this as an invariant of the
tokens of a region. A true branch is no qualified name by itself, since a branch ends at the first colon
outside literals and parentheses.
-/

namespace Reckon

/-- The tokens of a region so far, the last of them first, as reading keeps them. -/
def Stacked (inArguments : Bool) : List Token → Prop
  | [] => True
  | t :: older => t.Readable inArguments ∧ (∀ p ∈ older.head?, p.Precedes t) ∧
    Stacked inArguments older

theorem Stacked.allReadable {inArguments : Bool} {before ts : List Token}
    (h : Stacked inArguments before) (hts : AllReadable inArguments ts)
    (hnext : ∀ p ∈ before.head?, ∀ t ∈ ts.head?, p.Precedes t) :
    AllReadable inArguments (before.reverse ++ ts) := by
  induction before generalizing ts with
  | nil => exact hts
  | cons t older ih =>
    obtain ⟨ht, holder, hstacked⟩ := h
    rw [List.reverse_cons, List.append_assoc, List.singleton_append]
    refine ih hstacked ?_ ?_
    · simp only [AllReadable]
      exact ⟨ht, hnext t rfl, hts⟩
    · intro p hp u hu
      obtain rfl := Option.some.inj hu
      exact holder p hp

/-- One more token is kept, merged with the last one or dropped, so that neighbours still may stand
side by side. -/
theorem Stacked.push {inArguments : Bool} {before : List Token} (h : Stacked inArguments before)
    {t : Token} (ht : t.Readable inArguments) (hnot : t ≠ .operator .notNot) :
    Stacked inArguments (push before t) := by
  unfold Reckon.push addToken
  split
  · rename_i op previous older
    obtain ⟨hprevious, holder, hstacked⟩ := h
    split
    · refine ⟨?_, ?_, hstacked⟩
      · simp [Token.Readable]
      · intro p hp
        have := holder p hp
        cases p with
        | operator p =>
          rcases this with ⟨-, hsign⟩ | ⟨-, hop⟩
          · exact .inl ⟨rfl, hsign⟩
          · exact absurd hop (by simp)
        | _ => trivial
    · exact ⟨hprevious, holder, hstacked⟩
    · exact ⟨hprevious, holder, hstacked⟩
    · exact ⟨hprevious, holder, hstacked⟩
    · exact hstacked
    · split
      · rename_i hsign
        refine ⟨ht, ?_, hprevious, holder, hstacked⟩
        intro p hp
        obtain rfl := Option.some.inj hp
        show previous.Precedes op
        cases op <;> cases previous <;> simp_all [Operator.Precedes, Operator.isSign]
      · exact ⟨hprevious, holder, hstacked⟩
  · rename_i hpair
    refine ⟨ht, ?_, h⟩
    intro p hp
    cases before with
    | nil => contradiction
    | cons q older =>
      obtain rfl := Option.some.inj hp
      cases q with
      | operator previous =>
        cases t with
        | operator op => exact (hpair op previous older rfl rfl).elim
        | _ => trivial
      | _ => cases t <;> trivial

theorem toBits_le_infinityBits (d : Decimal) : d.toBits ≤ Binary.infinityBits := by
  unfold Decimal.toBits
  split
  · exact Nat.zero_le _
  · simp only
    split
    · exact Nat.le_refl _
    · split
      · exact Nat.zero_le _
      · unfold Binary.nearestBits
        split
        · exact Nat.zero_le _
        · exact Nat.min_le_right _ _

theorem unsigned_toFloat (whole fraction : List Char) (exponent : Int) :
    Unsigned (Numeral.toFloat ⟨false, whole, fraction, exponent⟩) :=
  unsigned_floatOf (toBits_le_infinityBits _)

theorem isNameChar_of_mem_takeWhile {cs : List Char} {d : Char}
    (h : d ∈ cs.takeWhile isNameChar) : isNameChar d :=
  List.all_eq_true.mp List.all_takeWhile d h

/-- What is read as a word is a name, and it is the first part of the text. -/
theorem isName_readWord {c : Char} {cs : List Char} (h : isNameStart c) :
    IsName (readWord (c :: cs)).1 ∧ (readWord (c :: cs)).1 ++ (readWord (c :: cs)).2 = c :: cs := by
  have htake : (c :: cs).takeWhile isNameChar = c :: cs.takeWhile isNameChar :=
    List.takeWhile_cons_of_pos (isNameChar_of_isNameStart h)
  have hsimple : IsName (c :: cs.takeWhile isNameChar) :=
    .simple h fun d hd => isNameChar_of_mem_takeWhile hd
  have hsplit := List.takeWhile_append_dropWhile (p := isNameChar) (l := c :: cs)
  unfold readWord
  simp only
  split
  · rename_i d more hrest
    split
    · rename_i hd
      have htake' : (d :: more).takeWhile isNameChar = d :: more.takeWhile isNameChar :=
        List.takeWhile_cons_of_pos (isNameChar_of_isNameStart (isNameStart_of_isAlpha hd))
      have hsplit' := List.takeWhile_append_dropWhile (p := isNameChar) (l := d :: more)
      refine ⟨?_, ?_⟩
      · rw [htake, htake']
        exact .qualified h (fun e he => isNameChar_of_mem_takeWhile he) hd
          (fun e he => isNameChar_of_mem_takeWhile he)
      · rw [hrest] at hsplit
        simp only [List.append_assoc, List.cons_append, hsplit', hsplit]
    · rw [htake] at hsplit ⊢
      exact ⟨hsimple, hsplit⟩
  · rw [htake] at hsplit ⊢
    exact ⟨hsimple, hsplit⟩

theorem ofWord?_spec {word : List Char} {op : Operator} (h : Operator.ofWord? word = some op) :
    op ≠ .notNot ∧ op ≠ .comma ∧ ':' ∉ word := by
  have hcolon {letters : List Char} (hword : word.map Char.toLower = letters)
      (hletters : ':' ∉ letters) : ':' ∉ word := by
    intro hmem
    have := List.mem_map_of_mem (f := Char.toLower) hmem
    rw [hword] at this
    exact hletters this
  unfold Operator.ofWord? at h
  split at h
  case h_7 => contradiction
  all_goals
    rename_i hword
    obtain rfl := Option.some.inj h
    exact ⟨by decide, by decide, hcolon hword (by decide)⟩

theorem ofSymbol?_spec {cs : List Char} {op : Operator} {size : Nat}
    (h : Operator.ofSymbol? cs = some (op, size)) :
    op ≠ .notNot ∧ Closed (· ≠ ':') (cs.take size) := by
  unfold Operator.ofSymbol? at h
  split at h
  case h_21 => contradiction
  all_goals
    obtain ⟨rfl, rfl⟩ := Prod.mk.inj (Option.some.inj h)
    exact ⟨by decide, Closed.of_forall (by simp [isQuote])⟩

section
variable {nested : RegionReader} {inArguments : Bool}

/-- The text of a branch has no end outside literals and parentheses. -/
theorem terminated_branchText (stop : Char) (q : Quotation) (depth : Int) (cs : List Char) :
    (branchText stop q depth (branchText stop q depth cs).text).terminated = false := by
  induction cs generalizing q depth with
  | nil => rfl
  | cons c cs ih =>
    simp only [branchText]
    split
    · rfl
    · rename_i hc
      simp only [branchText, if_neg hc]
      exact ih _ _

theorem readBranch_cases (branch : Branch) (pos : Nat) (cs : List Char) :
    (readBranch nested branch pos cs).result = [.number 0.0] ∨
      (readBranch nested branch pos cs).result = (nested false pos cs).result := by
  unfold readBranch
  split
  · exact .inl rfl
  · exact .inr rfl

/-- The lexemes that a text may begin with, and what they are made of. -/
inductive Scans (nested : RegionReader) (inArguments : Bool) (cs : List Char) : Lexeme → Prop where
  | wordOperator {word rest op stop} : IsName word → word ++ rest = cs →
    Operator.ofWord? word = some op → Scans nested inArguments cs (.token (.operator op) stop rest)
  | name {word rest stop} : IsName word → word ++ rest = cs → Operator.ofWord? word = none →
    Scans nested inArguments cs (.token (.name (String.ofList word)) stop rest)
  | call {word inner rest' rest start stop} : IsName word → word ++ rest' = cs →
    Operator.ofWord? word = none → Scans nested inArguments cs
      (.token (.call (String.ofList word) (nested true start inner).result) stop rest)
  | number {whole fraction rest stop} : Scans nested inArguments cs
      (.token (.number (Numeral.toFloat ⟨false, whole, fraction, 0⟩)) stop rest)
  | text {s rest stop} : Scans nested inArguments cs (.token (.text s) stop rest)
  | symbol {op size stop} : Operator.ofSymbol? cs = some (op, size) →
    (op = .comma → inArguments = true) →
      Scans nested inArguments cs (.token (.operator op) stop (cs.drop size))
  | comma {op size stop} : Operator.ofSymbol? cs = some (op, size) →
    Scans nested inArguments cs (.dropped stop (cs.drop size))
  | group {inner rest start stop} :
    Scans nested inArguments cs (.token (.group (nested false start inner).result) stop rest)
  | conditional {trueText falseText rest start start' stop} :
    (branchText ':' .outside 0 trueText).terminated = false → Scans nested inArguments cs
      (.token (.conditional (readBranch nested .whenTrue start trueText).result
        (readBranch nested .whenFalse start' falseText).result) stop rest)
  | undefined {rest stop} : inArguments = false →
    Scans nested inArguments cs (.token .undefined stop rest)
  | last : Scans nested inArguments cs .last

theorem scans_readNamed {c : Char} (h : isNameStart c) (pos : Nat) (cs : List Char) :
    Scans nested inArguments (c :: cs) (readNamed nested pos (c :: cs)).result := by
  obtain ⟨hname, hsplit⟩ := @isName_readWord c cs h
  unfold readNamed
  simp only
  split
  · rename_i hword
    exact .wordOperator hname hsplit hword
  · rename_i hword _
    exact .call hname hsplit hword
  · rename_i hword _
    exact .name hname hsplit hword

theorem scans_readLexeme (pos : Nat) (c : Char) (cs : List Char) :
    Scans nested inArguments (c :: cs) (readLexeme nested inArguments pos c cs).result := by
  unfold readLexeme
  split
  · rename_i hc
    exact scans_readNamed hc pos cs
  · split
    · exact .number
    · split
      · exact .text
      · split
        · rename_i hop
          split
          · exact .comma hop
          · rename_i hcomma
            refine .symbol hop fun heq => ?_
            cases inArguments with
            | true => rfl
            | false => exact absurd ⟨heq, rfl⟩ hcomma
        · split
          · exact .group
          · split
            · exact .conditional (terminated_branchText ':' .outside 0 _)
            · split
              · exact .last
              · rename_i hin
                exact .undefined (by simpa using hin)

end

/-- A reader of regions whose results can be spelled, and which finds no qualified name by itself in a
text without a colon outside literals and parentheses. -/
def ReadsReadable (nested : RegionReader) : Prop :=
  (∀ inArguments pos cs, AllReadable inArguments (nested inArguments pos cs).result) ∧
  ∀ pos cs, (branchText ':' .outside 0 cs).terminated = false →
    ¬SoleQualified (nested false pos cs).result

section
variable {nested : RegionReader} {inArguments : Bool}

theorem ReadsReadable.readBranch (h : ReadsReadable nested) (branch : Branch) (pos : Nat)
    (cs : List Char) : AllReadable false (Reckon.readBranch nested branch pos cs).result := by
  rcases @readBranch_cases nested branch pos cs with hzero | hread
  · rw [hzero]
    have hunsigned : Unsigned 0.0 := by
      unfold Unsigned
      decide +kernel
    simp only [AllReadable, Token.Readable]
    exact ⟨hunsigned, by simp, trivial⟩
  · rw [hread]
    exact h.1 false pos cs

theorem ReadsReadable.not_soleQualified (h : ReadsReadable nested) (branch : Branch) (pos : Nat)
    {cs : List Char} (hcs : (branchText ':' .outside 0 cs).terminated = false) :
    ¬SoleQualified (Reckon.readBranch nested branch pos cs).result := by
  rcases @readBranch_cases nested branch pos cs with hzero | hread
  · rw [hzero]
    exact id
  · rw [hread]
    exact h.2 pos cs hcs

theorem ReadsReadable.readLexeme (h : ReadsReadable nested) {cs rest : List Char} {t : Token}
    {stop : Nat} (hl : Scans nested inArguments cs (.token t stop rest)) :
    t.Readable inArguments ∧ t ≠ .operator .notNot := by
  cases hl with
  | wordOperator _ _ hword =>
    obtain ⟨hnot, hcomma, -⟩ := ofWord?_spec hword
    refine ⟨?_, fun heq => hnot (Token.operator.inj heq)⟩
    simp only [Token.Readable]
    exact fun hop => absurd hop hcomma
  | name hname _ hword =>
    refine ⟨?_, by simp⟩
    simp only [Token.Readable, IsReference, String.toList_ofList]
    exact ⟨hname, hword⟩
  | call hname _ hword =>
    refine ⟨?_, by simp⟩
    simp only [Token.Readable, IsReference, String.toList_ofList]
    exact ⟨⟨hname, hword⟩, h.1 _ _ _⟩
  | number =>
    refine ⟨?_, by simp⟩
    simp only [Token.Readable]
    exact unsigned_toFloat _ _ _
  | text =>
    refine ⟨?_, by simp⟩
    simp only [Token.Readable]
  | symbol hop hcomma =>
    refine ⟨?_, fun heq => (ofSymbol?_spec hop).1 (Token.operator.inj heq)⟩
    simpa only [Token.Readable] using hcomma
  | group =>
    refine ⟨?_, by simp⟩
    simp only [Token.Readable]
    exact h.1 _ _ _
  | conditional hcolon =>
    refine ⟨?_, by simp⟩
    simp only [Token.Readable]
    exact ⟨h.readBranch _ _ _, h.not_soleQualified _ _ hcolon, h.readBranch _ _ _⟩
  | undefined hin =>
    refine ⟨?_, by simp⟩
    simpa only [Token.Readable] using hin

theorem ReadsReadable.readRegion (h : ReadsReadable nested) (before : List Token) (pos : Nat)
    (cs : List Char) : Stacked inArguments before →
      AllReadable inArguments (readRegion nested inArguments before pos cs).result := by
  have hend (before : List Token) (hbefore : Stacked inArguments before) :
      AllReadable inArguments before.reverse := by
    have := @Stacked.allReadable inArguments before [] hbefore (by simp [AllReadable]) (by simp)
    rwa [List.append_nil] at this
  refine @readRegion_induction nested inArguments
    (fun before _ result => Stacked inArguments before → AllReadable inArguments result) ?_ ?_ before pos cs
  · intro before _ _
    exact hend before
  · intro before gap c more pos _
    have hscans := @scans_readLexeme nested inArguments pos c more
    split
    · rename_i t stop rest hl
      rw [hl] at hscans
      obtain ⟨ht, hnot⟩ := h.readLexeme hscans
      intro result hresult hbefore
      exact hresult (hbefore.push ht hnot)
    · intro result hresult
      exact hresult
    · exact hend before

/-- The first tokens of a region, the last of them first, from which no qualified name by itself can
come: an operator other than a minus, or something that stays and is no qualified name. -/
inductive Bars : List Token → Prop where
  | operator {op} : op ≠ .sub → Bars [.operator op]
  | other {t} : t.operator? = none → ¬t.IsQualified → Bars [t]
  | afterMinus {t} : t.operator? = none → Bars [t, .operator .sub]

/-- The first tokens of a region are such that no qualified name by itself can come from it. -/
def Barred (before : List Token) : Prop :=
  ∃ newer older, Bars older ∧ newer ++ older = before

/-- A region has no token so far, or one minus sign. -/
def Bare (before : List Token) : Prop :=
  before = [] ∨ before = [.operator .sub]

theorem Bars.barred {before : List Token} (h : Bars before) : Barred before :=
  ⟨[], before, h, rfl⟩

theorem Barred.push {before : List Token} (h : Barred before) (t : Token) :
    Barred (push before t) := by
  obtain ⟨newer, older, h, rfl⟩ := h
  cases newer with
  | cons a newer =>
    refine ⟨Reckon.push [a] t ++ newer, older, h, ?_⟩
    rw [List.cons_append, push_cons a (newer ++ older), List.append_assoc]
  | nil =>
    cases h with
    | @operator op hop =>
      cases t with
      | operator o =>
        cases op <;> cases o <;>
          first
          | exact absurd rfl hop
          | exact (Bars.operator (by decide)).barred
          | exact ⟨[_], _, .operator (by decide), rfl⟩
      | _ => exact ⟨[_], _, .operator hop, rfl⟩
    | other ht hqualified =>
      exact ⟨[t], _, .other ht hqualified, (push_of_operator?_eq_none ht [] t).symm⟩
    | afterMinus ht => exact ⟨[t], _, .afterMinus ht, (push_of_operator?_eq_none ht _ t).symm⟩

theorem Barred.not_soleQualified {before : List Token} (h : Barred before) :
    ¬SoleQualified before.reverse := by
  obtain ⟨newer, older, h, rfl⟩ := h
  rw [List.reverse_append]
  cases h with
  | operator _ => cases newer.reverse <;> exact id
  | other _ hqualified =>
    cases newer.reverse with
    | nil => exact hqualified
    | cons _ _ => exact id
  | afterMinus _ => exact id

theorem Bare.not_soleQualified {before : List Token} (h : Bare before) :
    ¬SoleQualified before.reverse := by
  rcases h with rfl | rfl <;> exact id

/-- After at most one minus sign, an operator leaves at most one minus sign or bars, and so does
everything else but a qualified name. -/
theorem Bare.push {before : List Token} (h : Bare before) {t : Token} (ht : t ≠ .operator .notNot) :
    (∃ op, t = .operator op) ∧ Bare (push before t) ∨ Barred (push before t) ∨ t.IsQualified := by
  cases hop : t.operator? with
  | some op =>
    obtain rfl : t = .operator op := by
      cases t with
      | operator o => rw [Option.some.inj hop]
      | _ => contradiction
    rcases h with rfl | rfl
    · by_cases hsub : op = .sub
      · exact .inl ⟨⟨op, rfl⟩, .inr (by rw [hsub]; rfl)⟩
      · exact .inr (.inl (Bars.operator hsub).barred)
    · refine .inl ⟨⟨op, rfl⟩, ?_⟩
      cases op <;> first | exact .inl rfl | exact .inr rfl | exact absurd rfl ht
  | none =>
    by_cases hqualified : t.IsQualified
    · exact .inr (.inr hqualified)
    · rcases h with rfl | rfl
      · rw [push_nil]
        exact .inr (.inl (Bars.other hop hqualified).barred)
      · have hpush : Reckon.push [.operator .sub] t = [t, .operator .sub] := by
          cases t <;> first | contradiction | rfl
        exact .inr (.inl (hpush ▸ (Bars.afterMinus hop).barred))

/-- The text has a colon outside literals and parentheses. -/
def HasColon (cs : List Char) : Prop :=
  ∃ w more, cs = w ++ ':' :: more ∧ Closed (· ≠ ':') w

theorem HasColon.append {w cs : List Char} (hw : Closed (· ≠ ':') w) (h : HasColon cs) :
    HasColon (w ++ cs) := by
  obtain ⟨v, more, rfl, hv⟩ := h
  exact ⟨w ++ v, more, by rw [List.append_assoc], hw.append hv⟩

theorem HasColon.terminated {cs : List Char} (h : HasColon cs) :
    (branchText ':' .outside 0 cs).terminated = true := by
  obtain ⟨w, more, rfl, hw⟩ := h
  rw [branchText_append hw]
  rfl

theorem closed_gap {gap : List Char} (h : ∀ g ∈ gap, isGap g) : Closed (· ≠ ':') gap := by
  refine Closed.of_forall fun c hc => ?_
  have := h c hc
  simp only [isGap, Bool.or_eq_true, beq_iff_eq] at this
  rcases this with rfl | rfl <;> exact ⟨rfl, by decide, by decide, by decide⟩

theorem closed_nameChars {w : List Char} (h : ∀ c ∈ w, isNameChar c) : Closed (· ≠ ':') w := by
  refine Closed.of_forall fun c hc => ?_
  obtain ⟨hq, hopen, hclose, -, hcolon, -⟩ := ne_of_isNameChar (h c hc)
  exact ⟨hq, hopen, hclose, hcolon⟩

theorem Scans.closed_operator {cs rest : List Char} {op : Operator} {stop : Nat}
    (h : Scans nested inArguments cs (.token (.operator op) stop rest)) :
    op ≠ .notNot ∧ ∃ w, w ++ rest = cs ∧ Closed (· ≠ ':') w := by
  cases h with
  | wordOperator hname hsplit hword =>
    obtain ⟨hnot, -, hcolon⟩ := ofWord?_spec hword
    refine ⟨hnot, _, hsplit, closed_nameChars fun c hc => ?_⟩
    rcases hname.mem hc with hc' | rfl
    · exact hc'
    · exact absurd hc hcolon
  | symbol hop _ =>
    obtain ⟨hnot, hclosed⟩ := ofSymbol?_spec hop
    exact ⟨hnot, _, List.take_append_drop _ _, hclosed⟩

theorem Scans.ne_notNot {cs rest : List Char} {t : Token} {stop : Nat}
    (h : Scans nested inArguments cs (.token t stop rest)) : t ≠ .operator .notNot := by
  rintro rfl
  exact h.closed_operator.1 rfl

theorem Scans.closed_dropped {cs rest : List Char} {stop : Nat}
    (h : Scans nested inArguments cs (.dropped stop rest)) :
    ∃ w, w ++ rest = cs ∧ Closed (· ≠ ':') w := by
  cases h with
  | comma hop => exact ⟨_, List.take_append_drop _ _, (ofSymbol?_spec hop).2⟩

theorem hasColon_of_isName {word : List Char} (h : IsName word) (hcolon : ':' ∈ word)
    (rest : List Char) : HasColon (word ++ rest) := by
  cases h with
  | @simple c cs hc hcs =>
    rcases List.mem_cons.mp hcolon with rfl | hcolon
    · exact absurd hc (by decide)
    · exact absurd (hcs _ hcolon) (by decide)
  | @qualified c cs d ds hc hcs hd hds =>
    refine ⟨c :: cs, ':' :: (d :: ds ++ rest), by simp, closed_nameChars ?_⟩
    intro e he
    rcases List.mem_cons.mp he with rfl | he
    · exact isNameChar_of_isNameStart hc
    · exact hcs e he

theorem Scans.hasColon {cs rest : List Char} {t : Token} {stop : Nat}
    (h : Scans nested inArguments cs (.token t stop rest)) (ht : t.IsQualified) : HasColon cs := by
  cases h with
  | name hname hsplit _ =>
    simp only [Token.IsQualified, String.toList_ofList] at ht
    exact hsplit ▸ hasColon_of_isName hname ht _
  | call hname hsplit _ =>
    simp only [Token.IsQualified, String.toList_ofList] at ht
    exact hsplit ▸ hasColon_of_isName hname ht _
  | _ => exact ht.elim

/-- A region that is a qualified name by itself has a colon in its text. The tokens before the name can
only be minus signs that cancel and operators that are dropped. -/
theorem hasColon_of_soleQualified (pos : Nat) (cs : List Char)
    (h : SoleQualified (readRegion nested inArguments [] pos cs).result) : HasColon cs := by
  have hread := @readRegion_induction nested inArguments (fun before cs result =>
    (Barred before → ¬SoleQualified result) ∧
    (Bare before → SoleQualified result → HasColon cs)) ?_ ?_ [] pos cs
  · exact hread.2 (.inl rfl) h
  · intro before gap _
    exact ⟨Barred.not_soleQualified, fun hbare hsole => (hbare.not_soleQualified hsole).elim⟩
  · intro before gap c more pos hgap
    have hscans := @scans_readLexeme nested inArguments pos c more
    have hgap := closed_gap hgap
    split
    · rename_i t stop rest hl
      rw [hl] at hscans
      rintro result ⟨hbarred, hcolon⟩
      refine ⟨fun hbefore => hbarred (hbefore.push t), fun hbefore hsole => .append hgap ?_⟩
      rcases hbefore.push hscans.ne_notNot with ⟨⟨op, rfl⟩, hbare⟩ | hbars | hqualified
      · obtain ⟨-, w, hw, hclosed⟩ := hscans.closed_operator
        rw [← hw]
        exact (hcolon hbare hsole).append hclosed
      · exact absurd hsole (hbarred hbars)
      · exact hscans.hasColon hqualified
    · rename_i stop rest hl
      rw [hl] at hscans
      obtain ⟨w, hw, hclosed⟩ := hscans.closed_dropped
      rintro result ⟨hbarred, hcolon⟩
      refine ⟨hbarred, fun hbefore hsole => .append hgap ?_⟩
      rw [← hw]
      exact (hcolon hbefore hsole).append hclosed
    · exact ⟨Barred.not_soleQualified, fun hbare hsole => (hbare.not_soleQualified hsole).elim⟩

end

/-- Reading with any number of levels gives sequences that can be spelled. -/
theorem readsReadable_readNested (limit levels : Nat) : ReadsReadable (readNested limit levels) := by
  induction levels with
  | zero =>
    refine ⟨?_, ?_⟩
    · intro inArguments pos cs
      simp only [readNested, Reported.result_bind, Reported.result_pure, AllReadable]
    · intro pos cs _
      exact id
  | succ levels ih =>
    refine ⟨?_, ?_⟩
    · intro inArguments pos cs
      exact ih.readRegion [] pos cs trivial
    · intro pos cs hcs hsole
      have hcolon := (hasColon_of_soleQualified pos cs hsole).terminated
      rw [hcs] at hcolon
      contradiction

/-- What a source is read as can be spelled. -/
theorem allReadable_tokenize (limit : Nat) (source : String) :
    AllReadable false (tokenize limit source).result :=
  (readsReadable_readNested limit (limit + 1)).1 false 0 source.toList

end Reckon
