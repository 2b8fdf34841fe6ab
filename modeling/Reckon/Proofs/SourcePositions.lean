import Reckon.Proofs.RegionReading

/-!
Reading stays in its place.

The loop over a region either ends or goes on with less of the region, and the regions that are read on
their own lie inside, later than the region begins. So reading comes to an end without a limit of nesting:
there is one reader that no limit bounds, and every limit that is high enough for a text gives it. All
places that reading comes to are places between characters of the source, within the region read.
-/

namespace Reckon

namespace Region

/-- A region without the gap that it begins with. -/
def afterGap (r : Region) : Region :=
  ⟨r.start + (r.text.takeWhile isGap).length, r.text.dropWhile isGap⟩

/-- The first lexeme of a region. -/
def lexeme (nested : RegionReader) (inArguments : Bool) (r : Region) : Reported Lexeme :=
  match r.afterGap.text with
  | [] => pure .last
  | c :: cs => readLexeme nested inArguments r.afterGap.start c cs

end Region

section

variable {nested : RegionReader} {inArguments : Bool} {r next : Region}

theorem rest_afterGap (r : Region) : r.afterGap.Rest r := rest_dropWhile_gap r.start r.text

/-- A region as its first lexeme and what comes after it. -/
theorem readRegion_eq (nested : RegionReader) (inArguments : Bool) (before : List Token)
    (r : Region) :
    readRegion nested inArguments before r.start r.text = r.lexeme nested inArguments >>= fun
      | .token t stop rest => do
        let before ← addToken before t r.afterGap.start stop
        readRegion nested inArguments before stop rest
      | .dropped stop rest => readRegion nested inArguments before stop rest
      | .last => pure before.reverse := by
  unfold Region.lexeme Region.afterGap
  cases hdrop : r.text.dropWhile isGap with
  | nil => exact readRegion_nil hdrop before r.start
  | cons c cs => exact readRegion_cons hdrop before r.start

theorem readsOn_lexeme (inArguments : Bool) (r : Region) :
    ReadsOn r.afterGap (r.lexeme · inArguments) := by
  unfold Region.lexeme
  cases hdrop : r.afterGap.text with
  | nil => exact .pure trivial
  | cons c cs =>
    have hlexeme := readsOn_readLexeme inArguments r.afterGap.start c cs
    rwa [← hdrop] at hlexeme

theorem Lexeme.text_of_next? {lexeme : Lexeme} (h : lexeme.next? = some next) :
    next.text = lexeme.rest := by
  cases lexeme with
  | token _ _ rest | dropped _ rest =>
    obtain rfl := Option.some.inj h
    rfl
  | last => contradiction

theorem rest_next (h : (r.lexeme nested inArguments).result.next? = some next) : next.Rest r :=
  (((readsOn_lexeme inArguments r).takes nested).next h).trans (rest_afterGap r)

/-- Reading goes on further in the region. -/
theorem start_lt_next (h : (r.lexeme nested inArguments).result.next? = some next) :
    r.start < next.start := by
  refine (rest_next h).start_lt ?_
  unfold Region.lexeme at h
  cases hdrop : r.afterGap.text with
  | nil =>
    rw [hdrop] at h
    contradiction
  | cons c cs =>
    rw [hdrop] at h
    rw [Lexeme.text_of_next? h]
    exact length_rest_lt_of_readLexeme hdrop rfl

theorem inside_next (h : (r.lexeme nested inArguments).result.next? = some next) : next.Inside r :=
  ⟨(rest_next h).within, start_lt_next h⟩

theorem span_addToken (before : List Token) (t : Token) (start stop : Nat) :
    ∀ d ∈ (addToken before t start stop).diagnostics, d.span? = some ⟨start, stop⟩ := by
  unfold addToken
  repeat' split
  all_goals simp [reportAt, Reported.report]

theorem reportsIn_addToken {a b : Region} (ha : a.Within r) (hb : b.Rest a) (before : List Token)
    (t : Token) : ReportsIn r (addToken before t a.start b.start) := by
  intro d hd
  obtain ⟨part, hpart, hspan⟩ := hb.exists_part
  exact ⟨part, hpart.trans ha, by rw [span_addToken _ _ _ _ d hd, hspan]⟩

theorem keepsTo_readRegion (inArguments : Bool) (before : List Token) (r : Region) :
    KeepsTo r (readRegion · inArguments before r.start r.text) := by
  induction hlen : r.text.length using Nat.strong_induction_on generalizing before r with
  | _ n ih =>
    subst hlen
    simp only [readRegion_eq]
    have hlexeme := readsOn_lexeme inArguments r
    refine .bind (hlexeme.toKeepsTo.of_within (rest_afterGap r).within) fun nested => ?_
    -- What is left after the lexeme is shorter, and is read as a region by itself.
    have hinside := @inside_next nested inArguments r
    have htakes := hlexeme.takes nested
    revert hinside htakes
    cases (r.lexeme nested inArguments).result with
    | token t stop rest =>
      intro hinside htakes
      refine .bind (.of_reports ?_) fun nested' => ?_
      · exact reportsIn_addToken (rest_afterGap r).within (htakes.next rfl) before t
      · exact (ih _ (hinside rfl).length_lt _ ⟨stop, rest⟩ rfl).of_within (hinside rfl).1
    | dropped stop rest =>
      intro hinside _
      exact (ih _ (hinside rfl).length_lt before ⟨stop, rest⟩ rfl).of_within (hinside rfl).1
    | last => exact fun _ _ => .pure _

theorem reportsIn_readNested (limit levels : Nat) (inArguments : Bool) (r : Region) :
    ReportsIn r (readNested limit levels inArguments r.start r.text) := by
  induction levels generalizing inArguments r with
  | zero =>
    intro d hd
    obtain rfl := List.mem_singleton.mp hd
    exact ⟨r, Region.Within.refl r, rfl⟩
  | succ levels ih =>
    intro d hd
    rcases (keepsTo_readRegion inArguments [] r).reports _ d hd with hlies | ⟨inner, part, hpart, hd⟩
    · exact hlies
    · exact (ih inner part d hd).of_within hpart.1

/-! Reading without a limit. -/

/-- A reader that reads every part of a region as it reads the region. -/
def Limitless (read : RegionReader) : Prop :=
  ∀ inArguments pos cs, read inArguments pos cs = readRegion read inArguments [] pos cs

/-- Regions are read alike under all limits that are higher than the texts are long. -/
theorem readNested_of_lt {limit limit' levels levels' : Nat} (inArguments : Bool) (r : Region)
    (h : r.text.length < levels) (h' : r.text.length < levels') :
    readNested limit levels inArguments r.start r.text =
      readNested limit' levels' inArguments r.start r.text := by
  induction levels generalizing levels' inArguments r with
  | zero => contradiction
  | succ levels ih =>
    cases levels' with
    | zero => contradiction
    | succ levels' =>
      -- A part inside is shorter, so a level less is still enough for it.
      refine (keepsTo_readRegion inArguments [] r).congr _ _ fun inArguments part hpart => ?_
      have := hpart.length_lt
      exact ih inArguments part (by omega) (by omega)

theorem readNested_of_limitless {read : RegionReader} (h : Limitless read) {limit levels : Nat}
    (inArguments : Bool) (r : Region) (hlevels : r.text.length < levels) :
    readNested limit levels inArguments r.start r.text = read inArguments r.start r.text := by
  induction levels generalizing inArguments r with
  | zero => contradiction
  | succ levels ih =>
    rw [h inArguments r.start r.text]
    refine (keepsTo_readRegion inArguments [] r).congr _ _ fun inArguments part hpart => ?_
    have := hpart.length_lt
    exact ih inArguments part (by omega)

/-- There is one reader without a limit. -/
theorem existsUnique_limitless : ∃! read : RegionReader, Limitless read := by
  -- The limit itself is never reported where there are more levels than characters.
  let read : RegionReader := fun inArguments pos cs => readNested 0 (cs.length + 1) inArguments pos cs
  have hread : Limitless read := by
    intro inArguments pos cs
    refine (keepsTo_readRegion inArguments [] ⟨pos, cs⟩).congr _ _ fun inArguments part hpart => ?_
    exact readNested_of_lt inArguments part hpart.length_lt (Nat.lt_succ_self _)
  refine ⟨read, hread, fun read' h => ?_⟩
  funext inArguments pos cs
  exact (readNested_of_limitless h inArguments ⟨pos, cs⟩ (Nat.lt_succ_self _)).symm

/-! The regions that reading comes to. -/

/-- Whether the reading of a region depends on how a part is read on its own: readers that differ on that
part alone give different readings of the region. -/
def Region.LooksInto (inArguments : Bool) (r part : Region) : Prop :=
  ∃ nested nested' : RegionReader,
    (∀ inArguments other, other ≠ part →
      nested inArguments other.start other.text = nested' inArguments other.start other.text) ∧
    readRegion nested inArguments [] r.start r.text ≠ readRegion nested' inArguments [] r.start r.text

/-- The next region that is read: what is left after a lexeme, or a part that is read on its own. -/
inductive Region.LeadsTo (r : Region) : Region → Prop where
  | rest {nested : RegionReader} {inArguments : Bool} {next : Region} :
      (r.lexeme nested inArguments).result.next? = some next → LeadsTo r next
  | part {inArguments : Bool} {part : Region} : r.LooksInto inArguments part → LeadsTo r part

theorem Region.LooksInto.inside {part : Region} (h : r.LooksInto inArguments part) :
    part.Inside r := by
  obtain ⟨nested, nested', hagree, hne⟩ := h
  by_contra hnot
  apply hne
  apply (keepsTo_readRegion inArguments [] r).congr
  intro inArguments other hother
  apply hagree inArguments other
  intro heq
  rw [heq] at hother
  exact hnot hother

theorem Region.LeadsTo.inside (h : r.LeadsTo next) : next.Inside r := by
  cases h with
  | rest h => exact inside_next h
  | part h => exact h.inside

/-- What stands in parentheses is read on its own. -/
theorem looksInto_parenthesized (inArguments : Bool) (pos : Nat) {inner : List Char}
    (h : Balanced inner) :
    Region.LooksInto inArguments ⟨pos, '(' :: (inner ++ [')'])⟩ ⟨pos + 1, inner⟩ := by
  let answering (t : Token) : RegionReader := fun _ start cs =>
    if (⟨start, cs⟩ : Region) = ⟨pos + 1, inner⟩ then pure [t] else pure []
  refine ⟨answering .undefined, answering (.name ""), fun inArguments other hother => ?_, ?_⟩
  · simp only [answering, if_neg hother]
  · rw [readRegion_parenthesized h, readRegion_parenthesized h]
    simp [answering, Functor.map]

theorem within_of_reflTransGen (h : Relation.ReflTransGen Region.LeadsTo r next) :
    next.Within r := by
  induction h with
  | refl => exact Region.Within.refl r
  | tail _ hstep ih => exact hstep.inside.1.trans ih

theorem wellFounded_leadsTo : WellFounded fun next r : Region => r.LeadsTo next :=
  Subrelation.wf (fun h => h.inside.length_lt) (measure fun r : Region => r.text.length).wf

/-- One turn of the loop over a region: it takes a lexeme off the region, and then it ends, or it goes on
with what is left and further in the source. -/
def Region.Turns (nested : RegionReader) (inArguments : Bool) (before : List Token) (r : Region) :
    Prop :=
  (r.lexeme nested inArguments).result.Takes r.afterGap ∧
  match (r.lexeme nested inArguments).result.next? with
  | none => (readRegion nested inArguments before r.start r.text).result = before.reverse
  | some next => next.Rest r ∧ r.start < next.start ∧ ∃ diagnostics before',
      readRegion nested inArguments before r.start r.text =
        Reported.mk () diagnostics >>= fun _ =>
          readRegion nested inArguments before' next.start next.text

theorem turns_region (nested : RegionReader) (inArguments : Bool) (before : List Token)
    (r : Region) : r.Turns nested inArguments before := by
  refine ⟨(readsOn_lexeme inArguments r).takes nested, ?_⟩
  have hrest := @rest_next nested inArguments r
  have hlater := @start_lt_next nested inArguments r
  rw [readRegion_eq, Reported.result_bind]
  revert hrest hlater
  cases hlexeme : (r.lexeme nested inArguments).result with
  | token t stop rest =>
    intro hrest hlater
    refine ⟨hrest rfl, hlater rfl, (r.lexeme nested inArguments).diagnostics ++
      (addToken before t r.afterGap.start stop).diagnostics,
      (addToken before t r.afterGap.start stop).result, ?_⟩
    exact Reported.ext' (by simp [hlexeme]) (by simp [hlexeme])
  | dropped stop rest =>
    intro hrest hlater
    refine ⟨hrest rfl, hlater rfl, (r.lexeme nested inArguments).diagnostics, before, ?_⟩
    exact Reported.ext' (by simp [hlexeme]) (by simp [hlexeme])
  | last => exact fun _ _ => rfl

end

/-- Reading comes to an end and stays in its place, for every source and every limit. Each turn of the
loop ends it or goes on further, and what is read on its own, as what stands in parentheses is, lies
inside the region, so there is one reader without a limit. Whatever reading comes to, and whatever is
reported, lies in the region read and between characters of the source. -/
theorem reading_in_place (limit : Nat) (source : String) :
    (∀ nested inArguments before r, Region.Turns nested inArguments before r) ∧
    (∀ (inArguments : Bool) (r part : Region), r.LooksInto inArguments part → part.Inside r) ∧
    (∀ (inArguments : Bool) (pos : Nat) (inner : List Char), Balanced inner →
      Region.LooksInto inArguments ⟨pos, '(' :: (inner ++ [')'])⟩ ⟨pos + 1, inner⟩) ∧
    (WellFounded fun next r : Region => r.LeadsTo next) ∧
    (∃! read : RegionReader, Limitless read) ∧
    (∀ (read : RegionReader) (levels : Nat) (inArguments : Bool) (r : Region), Limitless read →
      r.text.length < levels →
      readNested limit levels inArguments r.start r.text = read inArguments r.start r.text) ∧
    (∀ (levels : Nat) (inArguments : Bool) (r : Region),
      ReportsIn r (readNested limit levels inArguments r.start r.text)) ∧
    (∀ r part : Region, Relation.ReflTransGen Region.LeadsTo (.whole source) r → part.Within r →
      part.span.Fits source ∧
      String.Pos.Raw.extract source ⟨part.start⟩ ⟨part.stop⟩ = String.ofList part.text) ∧
    (∀ d ∈ (tokenize limit source).diagnostics ++ (tokenizeArguments limit source).diagnostics,
      ∃ span, d.span? = some span ∧ span.Fits source) := by
  refine ⟨turns_region, fun _ _ _ h => h.inside,
    fun inArguments pos _ h => looksInto_parenthesized inArguments pos h, wellFounded_leadsTo,
    existsUnique_limitless, ?_, reportsIn_readNested limit, ?_, ?_⟩
  · exact fun _ _ inArguments r h hlevels => readNested_of_limitless h inArguments r hlevels
  · intro r part hr hpart
    have hwhole : part.Within (.whole source) := hpart.trans (within_of_reflTransGen hr)
    exact ⟨hwhole.fits, hwhole.extract⟩
  · intro d hd
    have hlies : d.LiesIn (.whole source) := by
      rcases List.mem_append.mp hd with hd | hd
      · exact reportsIn_readNested limit (limit + 1) false (.whole source) d hd
      · exact reportsIn_readNested limit (limit + 1) true (.whole source) d hd
    obtain ⟨part, hpart, hspan⟩ := hlies
    exact ⟨part.span, hspan, hpart.fits⟩

end Reckon
