import Reckon.Proofs.FormulaSeparators
import Reckon.Proofs.NestingMet

/-!
How deep the formulas of sources are nested, and whether their evaluation meets the limit.

Reading counts the levels below the root, reduction counts the root too. So every formula gets by with
one level more than its limit, and one that takes this level is let pass by reading and refused by
evaluation.
-/

namespace Reckon

/-- Whether a property holds of the sequences right inside a token. -/
def Token.Holds (p : List Token → Prop) : Token → Prop
  | .call _ arguments => p arguments
  | .group inner => p inner
  | .conditional whenTrue whenFalse => p whenTrue ∧ p whenFalse
  | _ => True

/-- A sequence that is nested so deep at most, with at most a value where there is no level left. -/
def Fits : Nat → List Token → Prop
  | 0, tokens => tokens.length ≤ 1 ∧ ∀ t ∈ tokens, t.isValue
  | levels + 1, tokens => ∀ t ∈ tokens, t.Holds (Fits levels)

theorem Fits.slot {levels : Nat} {arguments slot : List Token} (h : Fits levels arguments)
    (hslot : slot ∈ splitArguments arguments) : Fits levels slot := by
  have hmem (t : Token) (ht : t ∈ slot) : t ∈ arguments := (mem_splitArguments hslot ht).1
  cases levels with
  | zero =>
    obtain ⟨hlength, hvalue⟩ := h
    refine ⟨?_, fun t ht => hvalue t (hmem t ht)⟩
    match arguments with
    | [] => cases hslot
    | [v] =>
      have hcomma : ∀ t ∈ [v], t.isOperator .comma = false := by
        intro t ht
        obtain rfl | ⟨_, rfl⟩ | ⟨_, rfl⟩ := value_cases (hvalue t ht) <;> rfl
      rw [splitArguments_of_ne_nil hcomma (by simp)] at hslot
      exact List.mem_singleton.mp hslot ▸ hlength
    | _ :: _ :: _ => simp at hlength
  | succ levels => exact fun t ht => h t (hmem t ht)

/-- What is nested so deep at most takes no more levels of reduction. -/
theorem Fits.within {levels : Nat} {tokens : List Token} (h : Fits levels tokens) :
    Within levels tokens ∧ ∀ t ∈ tokens, t.Confined (Within levels) := by
  induction levels generalizing tokens with
  | zero =>
    obtain ⟨hlength, hvalue⟩ := h
    refine ⟨?_, fun t ht => confined_of_isValue (hvalue t ht)⟩
    match tokens with
    | [] => rfl
    | [v] =>
      obtain rfl | ⟨_, rfl⟩ | ⟨_, rfl⟩ := value_cases (hvalue v (List.mem_singleton_self v)) <;> rfl
    | _ :: _ :: _ => simp at hlength
  | succ levels ih =>
    have hconfined : ∀ t ∈ tokens, t.Confined (Within levels) := by
      intro t ht
      have hholds := h t ht
      cases t with
      | call s arguments =>
        simp only [Token.Confined]
        exact fun slot hslot => (ih (Fits.slot hholds hslot)).1
      | group inner =>
        simp only [Token.Confined]
        exact ⟨(ih hholds).1, aloneConfined_of_forall (ih hholds).2⟩
      | conditional whenTrue whenFalse =>
        obtain ⟨htrue, hfalse⟩ := And.imp ih ih hholds
        simp only [Token.Confined]
        exact ⟨fun _ => htrue.1, aloneConfined_of_forall htrue.2, fun _ => hfalse.1,
          aloneConfined_of_forall hfalse.2⟩
      | undefined | number _ | text _ | operator _ | name _ => simp only [Token.Confined]
    exact ⟨fun _ => hconfined, fun t ht => (hconfined t ht).mono fun _ => Within.succ⟩

/-! What is read fits the levels that it is read with. -/

section Reading

variable {levels : Nat} {nested : RegionReader} {inArguments : Bool}

theorem fits_zero (levels : Nat) : Fits levels [.number 0.0] := by
  cases levels with
  | zero => exact ⟨Nat.le_refl 1, by simp [Token.isValue]⟩
  | succ levels => simp [Fits, Token.Holds]

theorem fits_readBranch (h : ∀ inArguments pos cs, Fits levels (nested inArguments pos cs).result)
    (branch : Branch) (pos : Nat) (cs : List Char) :
    Fits levels (readBranch nested branch pos cs).result := by
  rcases @readBranch_cases nested branch pos cs with hzero | hread
  · rw [hzero]
    exact fits_zero levels
  · rw [hread]
    exact h false pos cs

theorem holds_of_scans (h : ∀ inArguments pos cs, Fits levels (nested inArguments pos cs).result)
    {cs rest : List Char} {t : Token} {stop : Nat}
    (hl : Scans nested inArguments cs (.token t stop rest)) : t.Holds (Fits levels) := by
  cases hl with
  | wordOperator _ _ _ | name _ _ _ | number | text | symbol _ _ | undefined _ => trivial
  | call _ _ _ | group => exact h _ _ _
  | conditional _ => exact ⟨fits_readBranch h _ _ _, fits_readBranch h _ _ _⟩

theorem fits_readNested (limit levels : Nat) (inArguments : Bool) (pos : Nat) (cs : List Char) :
    Fits levels (readNested limit levels inArguments pos cs).result := by
  induction levels generalizing inArguments pos cs with
  | zero => exact ⟨Nat.zero_le 1, fun t ht => nomatch ht⟩
  | succ levels ih =>
    have hend {before : List Token} (hbefore : ∀ t ∈ before, t.Holds (Fits levels)) :
        Fits (levels + 1) before.reverse := fun t ht => hbefore t (List.mem_reverse.mp ht)
    refine @readRegion_induction (readNested limit levels) inArguments
      (fun before _ result => (∀ t ∈ before, t.Holds (Fits levels)) → Fits (levels + 1) result)
      ?_ ?_ [] pos cs (by simp)
    · intro before gap _
      exact hend
    · intro before gap c more pos _
      have hscans := @scans_readLexeme (readNested limit levels) inArguments pos c more
      split
      · rename_i t stop rest hl
        rw [hl] at hscans
        intro result hresult hbefore
        refine hresult fun u hu => ?_
        rcases mem_push hu with hu | rfl | rfl
        · exact hbefore u hu
        · exact holds_of_scans ih hscans
        · trivial
      · intro result hresult
        exact hresult
      · exact hend

end Reading

/-! Repair nests nothing deeper. -/

section Repair

variable {source : String}

theorem fits_repaired {levels : Nat} {tokens : List Token} (h : Fits levels tokens) :
    (∀ root, Fits levels (repairSequence source root [] tokens).result.value) ∧
      Fits levels (repairArguments source [] tokens).result.value := by
  induction levels generalizing tokens with
  | zero =>
    obtain ⟨hlength, hvalue⟩ := h
    match tokens with
    | [] => exact ⟨fun _ => ⟨hlength, hvalue⟩, hlength, hvalue⟩
    | [v] =>
      obtain rfl | ⟨_, rfl⟩ | ⟨_, rfl⟩ := value_cases (hvalue v (List.mem_singleton_self v)) <;>
        exact ⟨fun _ => ⟨hlength, hvalue⟩, hlength, hvalue⟩
    | _ :: _ :: _ => simp at hlength
  | succ levels ih =>
    have htoken (u : Token) (hu : u ∈ tokens) :
        (repairToken source u).result.value.Holds (Fits levels) := by
      have hholds := h u hu
      cases u with
      | call _ arguments => exact (ih hholds).2
      | group inner => exact (ih hholds).1 false
      | conditional whenTrue whenFalse => exact ⟨(ih hholds.1).1 false, (ih hholds.2).1 false⟩
      | undefined | number _ | text _ | operator _ | name _ => trivial
    constructor
    · intro root t ht
      obtain ⟨u, hu, rfl⟩ := (mem_repairSequence ht).resolve_left List.not_mem_nil
      exact htoken u hu
    · intro t ht
      obtain ⟨u, hu, rfl⟩ := (mem_repairArguments ht).resolve_left List.not_mem_nil
      exact htoken u hu

end Repair

/-! Tables under which every call of a sequence is performed. -/

section Calls

mutual

/-- The names of all calls in a token. -/
def Token.calledNames : Token → List String
  | .call s arguments => s :: Reckon.calledNames arguments
  | .group inner => Reckon.calledNames inner
  | .conditional whenTrue whenFalse => Reckon.calledNames whenTrue ++ Reckon.calledNames whenFalse
  | _ => []

/-- The names of all calls in a sequence. -/
def calledNames : List Token → List String
  | [] => []
  | t :: rest => t.calledNames ++ calledNames rest

end

theorem calledNames_subset {tokens : List Token} {t : Token} (ht : t ∈ tokens) :
    t.calledNames ⊆ calledNames tokens := by
  induction tokens with
  | nil => cases ht
  | cons u rest ih =>
    rw [calledNames]
    rcases List.mem_cons.mp ht with rfl | hrest
    · exact List.subset_append_left ..
    · exact List.subset_append_of_subset_right _ (ih hrest)

theorem SequenceAt.calledNames_subset {inArguments inside : Bool} {root ts : List Token} {level : Nat}
    (h : SequenceAt inArguments root level inside ts) : calledNames ts ⊆ calledNames root := by
  induction h with
  | root => exact List.Subset.refl _
  | arguments _ hm ih =>
    refine List.Subset.trans ?_ (List.Subset.trans (Reckon.calledNames_subset hm) ih)
    exact List.subset_cons_self ..
  | interior _ hm ih => exact List.Subset.trans (Reckon.calledNames_subset hm) ih
  | whenTrue _ hm ih =>
    refine List.Subset.trans ?_ (List.Subset.trans (Reckon.calledNames_subset hm) ih)
    exact List.subset_append_left ..
  | whenFalse _ hm ih =>
    refine List.Subset.trans ?_ (List.Subset.trans (Reckon.calledNames_subset hm) ih)
    exact List.subset_append_right ..

theorem mem_calledNames {inside : Bool} {tokens arguments : List Token} {s : String}
    (h : TokenAt false tokens inside (.call s arguments)) : s ∈ calledNames tokens := by
  obtain ⟨level, ts, hts, ht⟩ := h
  exact hts.calledNames_subset (calledNames_subset ht (List.mem_cons_self ..))

/-- No variables, and functions that give null for all calls of a sequence. -/
def quietScope (tokens : List Token) : Scope :=
  ⟨.ofList ((calledNames tokens).map fun s => (s, fun _ => .ok .null)), .empty⟩

theorem get?_insertAll {α : Type} (table : Table α) (names : List String) (value : α) (s : String) :
    ((table.insertAll (names.map fun s => (s, value))).get? s = table.get? s ∧ s ∉ names) ∨
      (table.insertAll (names.map fun s => (s, value))).get? s = some value := by
  induction names generalizing table with
  | nil => exact .inl ⟨rfl, List.not_mem_nil⟩
  | cons name rest ih =>
    rcases ih (table.insert name value) with ⟨he, hs⟩ | he
    · rw [Table.get?_insert] at he
      split at he
      · exact .inr he
      · rename_i hne
        refine .inl ⟨he, ?_⟩
        rw [List.mem_cons, not_or]
        exact ⟨fun h => hne (congrArg foldName h), hs⟩
    · exact .inr he

theorem not_fails_quietScope (tokens : List Token) (failure : Failure) :
    ¬(quietScope tokens).Fails failure := by
  rintro ⟨s, function, values, hf, he⟩
  rcases get?_insertAll (.empty : Table Function) (calledNames tokens) (fun _ => .ok .null) s with
    ⟨hnone, -⟩ | hsome
  · cases hf.symm.trans hnone
  · cases Option.some.inj (hf.symm.trans hsome)
    cases he

theorem get?_quietScope {tokens : List Token} {s : String} (h : s ∈ calledNames tokens) :
    ∃ function, (quietScope tokens).functions.get? s = some function := by
  rcases get?_insertAll (.empty : Table Function) (calledNames tokens) (fun _ => .ok .null) s with
    ⟨-, hs⟩ | hsome
  · exact absurd h hs
  · exact ⟨_, hsome⟩

end Calls

namespace Formula

theorem tokenAt_of_body {f : Formula} {inside : Bool} {t : Token} (h : TokenAt false f.body inside t) :
    TokenAt false f.tokens inside t := by
  obtain ⟨level, ts, hts, ht⟩ := h
  obtain ⟨before, htokens⟩ := splitTarget_append f.tokens
  have hwhole : level = 0 ∧ inside = false ∧ ts = f.body ∨
      level ≠ 0 ∧ SequenceAt false (before ++ f.body) level inside ts := hts.of_append
  rw [htokens]
  rcases hwhole with ⟨-, rfl, rfl⟩ | ⟨-, hts⟩
  · exact ⟨0, _, .root, List.mem_append_right before ht⟩
  · exact ⟨level, ts, hts, ht⟩

section Read

variable (limit : Nat) (source : String)

/-- Every formula that is read gets by with one level more than its limit. -/
theorem within_read : Within (limit + 1) (read limit source).body := by
  have hread : Fits (limit + 1) (tokenize limit source).result := fits_readNested limit _ false 0 _
  have hrepaired : Fits (limit + 1) (read limit source).tokens := (fits_repaired hread).1 true
  obtain ⟨before, htokens⟩ := splitTarget_append (read limit source).tokens
  have hbody : Fits (limit + 1) (read limit source).body :=
    fun t ht => hrepaired t (htokens ▸ List.mem_append_right before ht)
  exact hbody.within.1

/-- Without conditionals, a formula that does not fit its limit meets it under some tables. -/
theorem meetsLimit_read
    (hplain : ∀ inside t, TokenAt false (read limit source).tokens inside t → ¬isConditional t)
    (hdeep : ¬Within limit (read limit source).body) :
    (read limit source).MeetsLimit (quietScope (read limit source).body) := by
  suffices AllEvery (fun _ t => t.Certain (quietScope (read limit source).body)) false
      (read limit source).body from
    meetsLimit_of_not_within (not_fails_quietScope _) this hdeep
  refine (allEvery_tokenAt false (read limit source).body).mono fun inside t ht => ?_
  cases t with
  | conditional _ _ => exact hplain inside _ (tokenAt_of_body ht) rfl
  | call s arguments =>
    have hs := (named_read limit source (tokenAt_of_body ht)).2 s arguments rfl
    exact ⟨by simpa using hs, get?_quietScope (mem_calledNames ht)⟩
  | undefined | number _ | text _ | operator _ | name _ | group _ => trivial

/-- When evaluation of a formula that was read reports the limit: when it comes to a sequence in need of
reduction with no level left. That depends on the shape alone where there are no conditionals, and it
never happens with one level more than the formula was read with. -/
theorem limit_reported_iff :
    (∀ scope : Scope, ¬scope.Fails (.nestingTooDeep limit) →
      ((read limit source).MeetsLimit scope ↔
        ∃ d ∈ ((read limit source).evaluate scope).1.diagnostics,
          d.cause.failure? = some (.nestingTooDeep limit))) ∧
    (Within limit (read limit source).body → ∀ scope, ¬(read limit source).MeetsLimit scope) ∧
    ((∀ inside t, TokenAt false (read limit source).tokens inside t → ¬isConditional t) →
      (∀ scope, ¬(read limit source).MeetsLimit scope) → Within limit (read limit source).body) ∧
    ∀ scope, ¬({ read limit source with limit := limit + 1 } : Formula).MeetsLimit scope := by
  refine ⟨fun scope => @meetsLimit_iff_reported (read limit source) scope,
    fun h scope => not_meetsLimit_of_within h, fun hplain h => ?_,
    fun scope => not_meetsLimit_of_within (within_read limit source)⟩
  by_contra hdeep
  exact h _ (meetsLimit_read limit source hplain hdeep)

/-- A group at the limit is read without a word, and then refused. -/
theorem limit_reported_at_limit :
    let f := read 1 "(1 + 1)"
    f.diagnostics = [] ∧ f.tokens = [.group [.number 1, .operator .add, .number 1]] ∧
      (f.evaluate ⟨.empty, .empty⟩).1.value = .null ∧
      ⟨.failedIn .parentheses (.nestingTooDeep 1), none⟩ ∈
        (f.evaluate ⟨.empty, .empty⟩).1.diagnostics := by
  decide +kernel

end Read

end Formula

end Reckon
