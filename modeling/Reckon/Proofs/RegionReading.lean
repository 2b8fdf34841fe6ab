import Reckon.Proofs.SourceRegions
import Reckon.Proofs.UnclosedReports

/-!
Readings that keep to their region.

A region is read by means of a reader for the parts inside it. Such a reading keeps to the region if what
it reports of its own lies there, and if it uses the other reader on parts that begin later only. This is
so of every reader, since each goes on where the one before it stopped, and the bytes that it counts are
those of the text that it took.
-/

namespace Reckon

/-- Whether everything that is reported lies in a region. -/
def ReportsIn {α : Type} (r : Region) (x : Reported α) : Prop := ∀ d ∈ x.diagnostics, d.LiesIn r

/-- Whether two readers read every part alike that begins later than a region does. -/
def AgreeInside (r : Region) (nested nested' : RegionReader) : Prop :=
  ∀ inArguments part, Region.Inside part r →
    nested inArguments part.start part.text = nested' inArguments part.start part.text

/-- What is reported lies in the region or comes from the reading of a part of it that begins later, and
only such parts are read. -/
structure KeepsTo {α : Type} (r : Region) (read : RegionReader → Reported α) : Prop where
  reports : ∀ nested, ∀ d ∈ (read nested).diagnostics, d.LiesIn r ∨
    ∃ inArguments part, Region.Inside part r ∧
      d ∈ (nested inArguments part.start part.text).diagnostics
  congr : ∀ nested nested', AgreeInside r nested nested' → read nested = read nested'

section

variable {α β : Type} {r s part a b : Region}

@[simp] theorem reportsIn_pure (a : α) : ReportsIn r (pure a : Reported α) := by
  simp [ReportsIn]

@[simp] theorem reportsIn_bind {x : Reported α} {f : α → Reported β} :
    ReportsIn r (x >>= f) ↔ ReportsIn r x ∧ ReportsIn r (f x.result) := by
  simp only [ReportsIn, Reported.diagnostics_bind, List.forall_mem_append]

theorem ReportsIn.of_within {x : Reported α} (h : ReportsIn s x) (hs : s.Within r) :
    ReportsIn r x :=
  fun d hd => (h d hd).of_within hs

theorem reportsIn_reportAt (ha : a.Within r) (hb : b.Rest a) (cause : Cause) :
    ReportsIn r (reportAt a.start b.start cause) := by
  intro d hd
  obtain rfl := List.mem_singleton.mp hd
  obtain ⟨part, hpart, hspan⟩ := hb.exists_part
  exact ⟨part, hpart.trans ha, by rw [hspan]⟩

theorem reportsIn_reportAt? (ha : a.Within r) (hb : b.Rest a) (cause? : Option Cause) :
    ReportsIn r (reportAt? a.start b.start cause?) := by
  cases cause? with
  | none => exact reportsIn_pure ()
  | some cause => exact reportsIn_reportAt ha hb cause

theorem AgreeInside.of_within {nested nested' : RegionReader} (h : AgreeInside r nested nested')
    (hs : s.Within r) : AgreeInside s nested nested' :=
  fun inArguments part hpart => h inArguments part (hpart.of_within hs)

namespace KeepsTo

theorem of_reports {x : Reported α} (h : ReportsIn r x) : KeepsTo r fun _ => x :=
  ⟨fun _ d hd => .inl (h d hd), fun _ _ _ => rfl⟩

theorem pure (a : α) : KeepsTo r fun _ => (Pure.pure a : Reported α) :=
  of_reports (reportsIn_pure a)

theorem nested (inArguments : Bool) (h : part.Inside r) :
    KeepsTo r fun nested => nested inArguments part.start part.text :=
  ⟨fun _ _ hd => .inr ⟨inArguments, part, h, hd⟩, fun _ _ hagree => hagree inArguments part h⟩

theorem bind {x : RegionReader → Reported α} {f : RegionReader → α → Reported β} (hx : KeepsTo r x)
    (hf : ∀ nested, KeepsTo r fun nested' => f nested' (x nested).result) :
    KeepsTo r fun nested => x nested >>= f nested := by
  refine ⟨fun nested d hd => ?_, fun nested nested' hagree => ?_⟩
  · rw [Reported.diagnostics_bind, List.mem_append] at hd
    rcases hd with hd | hd
    · exact hx.reports nested d hd
    · exact (hf nested).reports nested d hd
  · rw [← hx.congr nested nested' hagree]
    exact Reported.bind_congr ((hf nested).congr nested nested' hagree)

theorem of_within {read : RegionReader → Reported α} (h : KeepsTo s read) (hs : s.Within r) :
    KeepsTo r read := by
  refine ⟨fun nested d hd => ?_, fun nested nested' hagree => ?_⟩
  · rcases h.reports nested d hd with hlies | ⟨inArguments, part, hpart, hd⟩
    · exact .inl (hlies.of_within hs)
    · exact .inr ⟨inArguments, part, hpart.of_within hs, hd⟩
  · exact h.congr nested nested' (hagree.of_within hs)

end KeepsTo

/-- A reading that chooses between two ways, whatever the reader for its parts. -/
theorem reading_ite (P : (RegionReader → Reported α) → Prop) {p : Prop} [Decidable p]
    {x y : RegionReader → Reported α} (hx : p → P x) (hy : ¬p → P y) :
    P fun nested => if p then x nested else y nested := by
  by_cases hp : p
  · simp only [if_pos hp]
    exact hx hp
  · simp only [if_neg hp]
    exact hy hp

end

/-! Literals. -/

theorem Escape.rest_read (pos : Nat) (cs : List Char) :
    Region.Rest ⟨pos + (read cs).size, (read cs).rest⟩ ⟨pos, cs⟩ := by
  cases cs with
  | nil => exact Region.Rest.refl _
  | cons c cs =>
    obtain ⟨w, hsplit, hsize, -⟩ := read_split c cs
    exact ⟨c :: w, congrArg (c :: ·) hsplit, by rw [hsize, width]⟩

theorem rest_quote {quote : Char} (hquote : isQuote quote) (pos : Nat) (cs : List Char) :
    Region.Rest ⟨pos + 1, cs⟩ ⟨pos, quote :: cs⟩ := by
  simp only [isQuote, Bool.or_eq_true, beq_iff_eq] at hquote
  rcases hquote with rfl | rfl
  · exact Region.Rest.cons pos '\'' cs
  · exact Region.Rest.cons pos '"' cs

theorem readString_region {quote : Char} (hquote : isQuote quote) {opened : Region} (pos : Nat)
    (cs : List Char) (h : Region.Rest ⟨pos, cs⟩ opened) :
    Region.Rest ⟨(readString quote opened.start pos cs).result.stop,
        (readString quote opened.start pos cs).result.rest⟩ ⟨pos, cs⟩ ∧
      ReportsIn opened (readString quote opened.start pos cs) := by
  fun_induction readString quote opened.start pos cs with
  | case1 pos =>
    refine ⟨Region.Rest.refl _, ?_⟩
    simp only [reportsIn_bind, reportsIn_pure, and_true]
    exact reportsIn_reportAt (Region.Within.refl opened) h .unterminatedString
  | case2 pos cs =>
    exact ⟨rest_quote hquote pos cs, reportsIn_pure _⟩
  | case3 pos cs escape next _ ih =>
    have hbackslash : Region.Rest ⟨pos + 1, cs⟩ ⟨pos, '\\' :: cs⟩ := Region.Rest.cons pos '\\' cs
    have hescape : Region.Rest ⟨next, escape.rest⟩ ⟨pos, '\\' :: cs⟩ :=
      (Escape.rest_read (pos + 1) cs).trans hbackslash
    obtain ⟨hrest, hreports⟩ := ih (hescape.trans h)
    refine ⟨hrest.trans hescape, ?_⟩
    simp only [reportsIn_bind, reportsIn_pure, and_true]
    exact ⟨reportsIn_reportAt? h.within hescape escape.cause?, hreports⟩
  | case4 pos c cs _ _ ih =>
    have hchar := Region.Rest.cons pos c cs
    obtain ⟨hrest, hreports⟩ := ih (hchar.trans h)
    refine ⟨hrest.trans hchar, ?_⟩
    simp only [reportsIn_bind, reportsIn_pure, and_true]
    exact hreports

/-! Parentheses and the branches of conditionals. -/

/-- What stands after an opening parenthesis. -/
theorem readParenthesized_region (pos : Nat) (cs : List Char) :
    Region.Inside ⟨(readParenthesized pos cs).result.start, (readParenthesized pos cs).result.interior⟩
        ⟨pos, '(' :: cs⟩ ∧
      Region.Rest ⟨(readParenthesized pos cs).result.stop, (readParenthesized pos cs).result.rest⟩
        ⟨pos + 1, cs⟩ ∧
      ReportsIn ⟨pos, '(' :: cs⟩ (readParenthesized pos cs) := by
  have hopen : Region.Rest ⟨pos + 1, cs⟩ ⟨pos, '(' :: cs⟩ := Region.Rest.cons pos '(' cs
  have hlt : pos < pos + 1 := Nat.lt_succ_self pos
  unfold readParenthesized
  rcases enclosed_cases .outside 0 cs with ⟨inner, rest, he, hcs, -⟩ | ⟨ending, -, he, -⟩
  · have hinner : Region.Within ⟨pos + 1, inner⟩ ⟨pos + 1, cs⟩ := ⟨[], ')' :: rest, hcs, rfl⟩
    have hrest : Region.Rest ⟨pos + 1 + width inner + 1, rest⟩ ⟨pos + 1, cs⟩ := by
      refine ⟨inner ++ [')'], by simp [hcs], ?_⟩
      rw [width_append, ← Nat.add_assoc]
      rfl
    rw [he]
    exact ⟨.of_rest hinner hopen hlt, hrest, reportsIn_pure _⟩
  · have hend : Region.Rest ⟨pos + 1 + width cs, []⟩ ⟨pos + 1, cs⟩ :=
      ⟨cs, (List.append_nil cs).symm, rfl⟩
    rw [he]
    refine ⟨.of_rest (Region.Within.refl _) hopen hlt, hend, ?_⟩
    simp only [reportsIn_bind, reportsIn_pure, and_true]
    exact reportsIn_reportAt (Region.Within.refl _) (hend.trans hopen) _

theorem branchText_split (stop : Char) (q : Quotation) (depth : Int) (cs : List Char) :
    cs = (branchText stop q depth cs).text ++
      if (branchText stop q depth cs).terminated then stop :: (branchText stop q depth cs).rest
      else (branchText stop q depth cs).rest := by
  induction cs generalizing q depth with
  | nil => rfl
  | cons c cs ih =>
    rw [branchText]
    split
    · rename_i hc
      simp only [Bool.and_eq_true, beq_iff_eq] at hc
      obtain ⟨⟨-, rfl⟩, -⟩ := hc
      rfl
    · exact congrArg (c :: ·) (ih _ _)

/-- A branch, and what follows the character that ends it. -/
theorem branchText_region {stop : Char} (hstop : stop.utf8Size = 1) (pos : Nat) (cs : List Char) :
    Region.Within ⟨pos, (branchText stop .outside 0 cs).text⟩ ⟨pos, cs⟩ ∧
      Region.Rest ⟨if (branchText stop .outside 0 cs).terminated then
          pos + width (branchText stop .outside 0 cs).text + 1
        else pos + width (branchText stop .outside 0 cs).text,
        (branchText stop .outside 0 cs).rest⟩ ⟨pos, cs⟩ := by
  have hsplit := branchText_split stop .outside 0 cs
  refine ⟨⟨[], _, hsplit, rfl⟩, ?_⟩
  split
  · rename_i hterminated
    rw [if_pos hterminated] at hsplit
    refine ⟨(branchText stop .outside 0 cs).text ++ [stop], by simpa using hsplit, ?_⟩
    rw [width_append, width, hstop, width, Nat.add_assoc]
  · rename_i hterminated
    rw [if_neg hterminated] at hsplit
    exact ⟨_, hsplit, rfl⟩

theorem rest_dropWhile_gap (pos : Nat) (cs : List Char) :
    Region.Rest ⟨pos + (cs.takeWhile isGap).length, cs.dropWhile isGap⟩ ⟨pos, cs⟩ := by
  refine ⟨cs.takeWhile isGap, List.takeWhile_append_dropWhile.symm, ?_⟩
  rw [width_gap (List.all_eq_true.mp List.all_takeWhile)]

/-! Lexemes. -/

/-- Where reading goes on after a lexeme. -/
def Lexeme.next? : Lexeme → Option Region
  | token _ stop rest | dropped stop rest => some ⟨stop, rest⟩
  | last => none

/-- Whether a token that is a slice of its source is spelled by a text: names and numbers are, and a call
begins with its name. -/
def Token.SpelledBy (w : List Char) : Token → Prop
  | .name s => w = s.toList
  | .call s _ => s.toList ++ ['('] <+: w
  | .number x => ∃ whole fraction, (∀ c ∈ whole, c.isDigit) ∧ (∀ c ∈ fraction, c.isDigit) ∧
      w = digitsText whole fraction ∧ x = Numeral.toFloat ⟨false, whole, fraction, 0⟩
  | _ => True

/-- Whether a lexeme is read off the front of a region. -/
def Lexeme.Takes (r : Region) : Lexeme → Prop
  | token t stop rest => ∃ w, r.text = w ++ rest ∧ stop = r.start + width w ∧ t.SpelledBy w
  | dropped stop rest => Region.Rest ⟨stop, rest⟩ r
  | last => True

/-- A reading of the first lexeme of a region that keeps to it and goes on after what it took. -/
structure ReadsOn (r : Region) (read : RegionReader → Reported Lexeme) : Prop
    extends KeepsTo r read where
  takes : ∀ nested, (read nested).result.Takes r

section

variable {r part : Region}

theorem Lexeme.Takes.next {lexeme : Lexeme} (h : lexeme.Takes r) {next : Region}
    (hnext : lexeme.next? = some next) : next.Rest r := by
  cases lexeme with
  | token t stop rest =>
    obtain ⟨w, htext, hstop, -⟩ := h
    obtain rfl := Option.some.inj hnext
    exact ⟨w, htext, hstop⟩
  | dropped stop rest =>
    obtain rfl := Option.some.inj hnext
    exact h
  | last => contradiction

theorem takes_of_rest {t : Token} {next : Region} (h : next.Rest r) (ht : ∀ w, t.SpelledBy w) :
    (Lexeme.token t next.start next.text).Takes r := by
  obtain ⟨w, htext, hstart⟩ := h
  exact ⟨w, htext, hstart, ht w⟩

theorem ReadsOn.pure {lexeme : Lexeme} (h : lexeme.Takes r) :
    ReadsOn r fun _ => Pure.pure lexeme :=
  ⟨.pure lexeme, fun _ => h⟩

theorem ReadsOn.report {a b : Region} (ha : a.Within r) (hb : b.Rest a) (cause : Cause)
    {lexeme : Lexeme} (h : lexeme.Takes r) :
    ReadsOn r fun _ => reportAt a.start b.start cause >>= fun _ => Pure.pure lexeme :=
  ⟨.bind (.of_reports (reportsIn_reportAt ha hb cause)) fun _ => .pure lexeme, fun _ => h⟩

theorem keepsTo_readBranch (branch : Branch) (h : part.Inside r) :
    KeepsTo r fun nested => readBranch nested branch part.start part.text := by
  have hrest : Region.Rest ⟨part.start + width part.text, []⟩ part :=
    ⟨part.text, (List.append_nil _).symm, rfl⟩
  unfold readBranch
  refine reading_ite (KeepsTo r) (fun _ => ?_) fun _ => .nested false h
  exact .bind (.of_reports (reportsIn_reportAt h.1 hrest (.emptyBranch branch))) fun _ => .pure _

theorem readsOn_readConditional (pos : Nat) (cs : List Char) :
    ReadsOn ⟨pos, '?' :: cs⟩ (readConditional · pos cs) := by
  have hmark : Region.Rest ⟨pos + 1, cs⟩ ⟨pos, '?' :: cs⟩ := Region.Rest.cons pos '?' cs
  have hlt : pos < pos + 1 := Nat.lt_succ_self pos
  have htrue := rest_dropWhile_gap (pos + 1) cs
  obtain ⟨htrueText, htrueRest⟩ := @branchText_region ':' rfl
    (pos + 1 + (cs.takeWhile isGap).length) (cs.dropWhile isGap)
  have hcolon := htrueRest.trans htrue
  have hfalse := (rest_dropWhile_gap _ _).trans hcolon
  obtain ⟨hfalseText, hfalseRest⟩ := @branchText_region ' ' rfl _
    ((branchText ':' .outside 0 (cs.dropWhile isGap)).rest.dropWhile isGap)
  have hblank := hfalseRest.trans hfalse
  have htrueInside := Region.Inside.of_rest (htrueText.trans htrue.within) hmark hlt
  have hfalseInside := Region.Inside.of_rest (hfalseText.trans hfalse.within) hmark hlt
  have hwhole := Region.Within.refl ⟨pos, '?' :: cs⟩
  refine ⟨?_, fun nested => takes_of_rest (hblank.trans hmark) fun _ => trivial⟩
  unfold readConditional
  refine .bind (.of_reports (reportsIn_reportAt? hwhole (hcolon.trans hmark) _)) fun _ => ?_
  refine .bind (.of_reports (reportsIn_reportAt? hwhole (hblank.trans hmark) _)) fun _ => ?_
  refine .bind (keepsTo_readBranch .whenTrue htrueInside) fun _ => ?_
  exact .bind (keepsTo_readBranch .whenFalse hfalseInside) fun _ => .pure _

/-- The parentheses after a text make one lexeme with it. -/
theorem readsOn_parenthesized {taken cs : List Char} (htext : r.text = taken ++ '(' :: cs)
    (inArguments : Bool) {t : List Token → Token}
    (ht : ∀ tokens w, (t tokens).SpelledBy (taken ++ '(' :: w)) :
    ReadsOn r (fun nested => do
      let p ← readParenthesized (r.start + width taken) cs
      let inner ← nested inArguments p.start p.interior
      Pure.pure (.token (t inner) p.stop p.rest)) := by
  have hopen : Region.Rest ⟨r.start + width taken, '(' :: cs⟩ r := ⟨taken, htext, rfl⟩
  obtain ⟨hinner, ⟨w, hw, hstop⟩, hreports⟩ := readParenthesized_region (r.start + width taken) cs
  refine ⟨?_, fun nested => ⟨taken ++ '(' :: w, ?_, ?_, ht _ w⟩⟩
  · refine .bind (.of_reports (hreports.of_within hopen.within)) fun _ => ?_
    exact .bind (.nested inArguments (hinner.of_within hopen.within)) fun _ => .pure _
  · rw [htext, List.append_assoc, List.cons_append]
    exact congrArg (taken ++ '(' :: ·) hw
  · rw [width_append, width, ← Nat.add_assoc, ← Nat.add_assoc]
    exact hstop

theorem readsOn_readNamed {c : Char} (hc : isNameStart c) (pos : Nat) (cs : List Char) :
    ReadsOn ⟨pos, c :: cs⟩ (readNamed · pos (c :: cs)) := by
  obtain ⟨-, hsplit⟩ := @isName_readWord c cs hc
  unfold readNamed
  simp only
  generalize (readWord (c :: cs)).1 = word at hsplit ⊢
  generalize (readWord (c :: cs)).2 = rest at hsplit ⊢
  have hplain {t : Token} (ht : t.SpelledBy word) :
      (Lexeme.token t (pos + width word) rest).Takes ⟨pos, c :: cs⟩ := ⟨word, hsplit.symm, rfl, ht⟩
  have hname : (Token.name (String.ofList word)).SpelledBy word := String.toList_ofList.symm
  cases Operator.ofWord? word with
  | some op => exact .pure (hplain (t := .operator op) trivial)
  | none =>
    by_cases hopen : ∃ inside, rest = '(' :: inside
    · obtain ⟨inside, rfl⟩ := hopen
      refine readsOn_parenthesized hsplit.symm true fun tokens w => ?_
      rw [Token.SpelledBy, String.toList_ofList, List.prefix_append_right_inj]
      exact List.prefix_append ['('] w
    · have hread : ReadsOn ⟨pos, c :: cs⟩ fun _ => Pure.pure
          (.token (.name (String.ofList word)) (pos + width word) rest) := .pure (hplain hname)
      convert hread using 2 with nested
      split
      · contradiction
      · exact absurd ⟨_, rfl⟩ hopen
      · rfl

theorem width_digitsText {whole fraction : List Char} (hwhole : ∀ c ∈ whole, c.isDigit)
    (hfraction : ∀ c ∈ fraction, c.isDigit) :
    width (digitsText whole fraction) =
      whole.length + if fraction.isEmpty then 0 else fraction.length + 1 := by
  have hdigits {cs : List Char} (hcs : ∀ c ∈ cs, c.isDigit) : width cs = cs.length :=
    width_eq_length fun c hc => utf8Size_of_isDigit (hcs c hc)
  rw [digitsText, width_append, hdigits hwhole]
  cases fraction with
  | nil => rfl
  | cons c fraction =>
    have hpoint : ('.' : Char).utf8Size = 1 := rfl
    simp only [List.isEmpty_cons, Bool.false_eq_true, if_false]
    rw [width, hpoint, hdigits hfraction, Nat.add_comm 1]

theorem takes_readNumeral (pos : Nat) (cs : List Char) : (readNumeral pos cs).Takes ⟨pos, cs⟩ := by
  obtain ⟨hsplit, hwhole, hfraction⟩ := readDigits_text cs
  have hstop := congrArg (pos + ·) (width_digitsText hwhole hfraction).symm
  exact ⟨_, hsplit, (Nat.add_assoc ..).trans hstop, _, _, hwhole, hfraction, rfl, rfl⟩

theorem width_ofSymbol? {cs : List Char} {op : Operator} {size : Nat}
    (h : Operator.ofSymbol? cs = some (op, size)) : width (cs.take size) = size := by
  unfold Operator.ofSymbol? at h
  split at h
  case h_21 => contradiction
  all_goals
    obtain ⟨rfl, rfl⟩ := Prod.mk.inj (Option.some.inj h)
    rfl

theorem readsOn_readLexeme (inArguments : Bool) (pos : Nat) (c : Char) (cs : List Char) :
    ReadsOn ⟨pos, c :: cs⟩ (readLexeme · inArguments pos c cs) := by
  have hwhole := Region.Within.refl ⟨pos, c :: cs⟩
  have hchar : Region.Rest ⟨pos + c.utf8Size, cs⟩ ⟨pos, c :: cs⟩ := Region.Rest.cons pos c cs
  have hend : Region.Rest ⟨pos + width (c :: cs), []⟩ ⟨pos, c :: cs⟩ :=
    ⟨c :: cs, (List.append_nil _).symm, rfl⟩
  unfold readLexeme
  refine reading_ite _ (fun hname => readsOn_readNamed hname pos cs) fun _ => ?_
  refine reading_ite _ (fun _ => .pure (takes_readNumeral pos (c :: cs))) fun _ => ?_
  refine reading_ite _ (fun hquote => ?_) fun _ => ?_
  · have hopen := rest_quote hquote pos cs
    obtain ⟨hrest, hreports⟩ := readString_region hquote (pos + 1) cs hopen
    refine ⟨.bind (.of_reports hreports) fun _ => .pure _, fun nested => ?_⟩
    exact takes_of_rest (hrest.trans hopen) fun _ => trivial
  cases hop : Operator.ofSymbol? (c :: cs) with
  | some found =>
    obtain ⟨op, size⟩ := found
    have hsymbol : Region.Rest ⟨pos + size, (c :: cs).drop size⟩ ⟨pos, c :: cs⟩ :=
      ⟨(c :: cs).take size, (List.take_append_drop _ _).symm, by rw [width_ofSymbol? hop]⟩
    refine reading_ite _ (fun _ => .report hwhole hsymbol _ hsymbol) fun _ => ?_
    exact .pure (takes_of_rest hsymbol fun _ => trivial)
  | none =>
    refine reading_ite _ (fun hopen => ?_) fun _ => reading_ite _ (fun hmark => ?_) fun _ =>
      reading_ite _ (fun _ => ?_) fun _ => ?_
    · subst hopen
      exact @readsOn_parenthesized ⟨pos, '(' :: cs⟩ [] cs rfl false _ fun _ _ => trivial
    · subst hmark
      exact readsOn_readConditional pos cs
    · exact .report hwhole hend _ trivial
    · exact .report hwhole hchar _ (takes_of_rest hchar fun _ => trivial)

end

end Reckon
