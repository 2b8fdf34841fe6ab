import Reckon.Proofs.CanonicalReading

/-!
Reading is the inverse of writing on sequences without conditionals.

The canonical text of a readable sequence that fits into the limit of nesting, whose numbers are finite
and whose texts have no null character, is read as the sequence itself with its names in lower case.
-/

namespace Reckon

mutual

/-- Whether a token holds no conditional, no infinite number and no null character. -/
def Token.Exact : Token → Prop
  | .number n => n.isFinite
  | .text s => '\x00' ∉ s.toList
  | .call _ arguments => AllExact arguments
  | .group inner => AllExact inner
  | .conditional _ _ => False
  | _ => True

/-- Whether a sequence holds no conditional, no infinite number and no null character. -/
def AllExact : List Token → Prop
  | [] => True
  | t :: rest => t.Exact ∧ AllExact rest

end

mutual

/-- The levels of nesting inside a token. -/
def Token.levels : Token → Nat
  | .call _ arguments => sequenceLevels arguments
  | .group inner => sequenceLevels inner
  | .conditional whenTrue whenFalse => max (sequenceLevels whenTrue) (sequenceLevels whenFalse)
  | _ => 0

/-- The levels of nesting of a sequence, that of its own tokens included. -/
def sequenceLevels : List Token → Nat
  | [] => 0
  | t :: rest => max (t.levels + 1) (sequenceLevels rest)

end

mutual

/-- The token with every name in lower case. -/
def Token.lowered : Token → Token
  | .name s => .name (foldName s)
  | .call s arguments => .call (foldName s) (lowerAll arguments)
  | .group inner => .group (lowerAll inner)
  | .conditional whenTrue whenFalse => .conditional (lowerAll whenTrue) (lowerAll whenFalse)
  | t => t

/-- The sequence with every name in lower case. -/
def lowerAll : List Token → List Token
  | [] => []
  | t :: rest => t.lowered :: lowerAll rest

end

theorem not_conditional_of_exact {t : Token} (h : t.Exact) : isConditional t = false := by
  cases t with
  | conditional _ _ => simp only [Token.Exact] at h
  | _ => rfl

theorem allExact_iff {ts : List Token} : AllExact ts ↔ ∀ t ∈ ts, t.Exact := by
  induction ts with
  | nil => simp [AllExact]
  | cons t rest ih => simp [AllExact, ih]

theorem sequenceLevels_le_iff {ts : List Token} {levels : Nat} :
    sequenceLevels ts ≤ levels ↔ ∀ t ∈ ts, t.levels + 1 ≤ levels := by
  induction ts with
  | nil => simp [sequenceLevels]
  | cons t rest ih => simp [sequenceLevels, ih]

theorem lowerAll_eq_map (ts : List Token) : lowerAll ts = ts.map Token.lowered := by
  induction ts with
  | nil => rfl
  | cons t rest ih => rw [lowerAll, ih, List.map_cons]

/-- Tokens other than conditionals are read one by one. -/
theorem rereadRegion_unconditional {nested : PieceReader} {ts : List Token} :
    ∀ {inArguments : Bool} {before : List Token}, AllReadable inArguments ts →
      (∀ t ∈ ts, isConditional t = false) → (∀ p ∈ before.head?, ∀ t ∈ ts.head?, p.Precedes t) →
        rereadRegion nested inArguments before (sequencePieces ts) =
          before.reverse ++ ts.map (Token.reread nested) := by
  induction ts with
  | nil =>
    intro inArguments before _ _ _
    have hnil : sequencePieces [] = [] := rfl
    rw [hnil, rereadRegion, List.map_nil, List.append_nil]
  | cons t rest ih =>
    intro inArguments before hreadable hcond hbefore
    simp only [AllReadable] at hreadable
    obtain ⟨ht, hnext, hrest⟩ := hreadable
    have hhead : ∀ p ∈ before.head?, p.Precedes t := fun p hp => hbefore p hp t rfl
    rw [sequencePieces_cons, rereadRegion_token ht (hcond t List.mem_cons_self) hhead,
      ih hrest (fun u hu => hcond u (List.mem_cons_of_mem t hu)), List.reverse_cons,
      List.append_assoc, List.map_cons, List.singleton_append]
    intro p hp u hu
    rw [← Option.some.inj hp]
    exact (hnext u hu).of_reread nested

/-- A reader that gives back what fits into so many levels. -/
def Inverts (levels : Nat) (nested : PieceReader) : Prop :=
  ∀ {inArguments : Bool} {ts : List Token}, AllReadable inArguments ts → AllExact ts →
    sequenceLevels ts ≤ levels → nested inArguments (sequencePieces ts) = lowerAll ts

section
variable {levels : Nat} {nested : PieceReader}

theorem Inverts.token (hnested : Inverts levels nested) {t : Token} {inArguments : Bool}
    (hreadable : t.Readable inArguments) (hexact : t.Exact) (hlevels : t.levels ≤ levels) :
    t.reread nested = t.lowered := by
  cases t with
  | undefined | operator _ | name _ => rfl
  | number n =>
    simp only [Token.Exact] at hexact
    simp only [Token.reread, Token.lowered, hexact, if_true]
  | text s =>
    simp only [Token.Exact] at hexact
    have hall : ∀ c ∈ s.toList, decide (c ≠ '\x00') = true := by
      intro c hc
      exact decide_eq_true fun hnull => hexact (hnull ▸ hc)
    simp only [Token.reread, Token.lowered, List.filter_eq_self.mpr hall, String.ofList_toList]
  | call s arguments =>
    simp only [Token.Readable] at hreadable
    simp only [Token.Exact] at hexact
    simp only [Token.levels] at hlevels
    simp only [Token.reread, Token.lowered, hnested hreadable.2 hexact hlevels]
  | group inner =>
    simp only [Token.Readable] at hreadable
    simp only [Token.Exact] at hexact
    simp only [Token.levels] at hlevels
    simp only [Token.reread, Token.lowered, hnested hreadable hexact hlevels]
  | conditional _ _ => simp only [Token.Exact] at hexact

theorem Inverts.region (hnested : Inverts levels nested) {ts : List Token} {inArguments : Bool}
    (hreadable : AllReadable inArguments ts) (hexact : AllExact ts)
    (hlevels : sequenceLevels ts ≤ levels + 1) :
    rereadRegion nested inArguments [] (sequencePieces ts) = lowerAll ts := by
  have hcond : ∀ t ∈ ts, isConditional t = false := fun t ht =>
    not_conditional_of_exact (allExact_iff.mp hexact t ht)
  rw [rereadRegion_unconditional hreadable hcond (by simp), List.reverse_nil, List.nil_append,
    lowerAll_eq_map]
  refine List.map_congr_left fun t ht => ?_
  have hlevels := sequenceLevels_le_iff.mp hlevels t ht
  exact hnested.token (hreadable.readable t ht) (allExact_iff.mp hexact t ht) (by omega)

end

/-- Every region is read as it was before it was written. -/
theorem inverts (levels : Nat) : Inverts levels (reread levels) := by
  induction levels with
  | zero =>
    intro inArguments ts _ _ hlevels
    cases ts with
    | nil => simp only [reread, lowerAll]
    | cons t rest =>
      simp only [sequenceLevels] at hlevels
      omega
  | succ levels ih =>
    intro inArguments ts hreadable hexact hlevels
    exact ih.region hreadable hexact hlevels

/-- Reading the canonical text gives the sequence back, with its names in lower case. -/
theorem tokenize_describe {limit : Nat} {ts : List Token} (hreadable : AllReadable false ts)
    (hexact : AllExact ts) (hlevels : sequenceLevels ts ≤ limit + 1) :
    (tokenize limit (describe ts)).result = lowerAll ts := by
  rw [tokenize_canonical limit hreadable]
  exact inverts (limit + 1) hreadable hexact hlevels

theorem tokenize_describe_nested :
    (tokenize 1 (describe
      [.call "Sum" [.name "X", .operator .comma, .operator .notNot, .operator .sub, .number 2.5],
        .operator .textGe, .group [.text "it's", .undefined, .name "Set::B"]])).result =
      [.call "sum" [.name "x", .operator .comma, .operator .notNot, .operator .sub, .number 2.5],
        .operator .textGe, .group [.text "it's", .undefined, .name "set::b"]] := by
  have hsum : IsReference "Sum" := ⟨.simple rfl (List.all_eq_true.mp rfl), by decide⟩
  have hx : IsReference "X" := ⟨.simple rfl (List.all_eq_true.mp rfl), by decide⟩
  have hset : IsReference "Set::B" :=
    ⟨@IsName.qualified 'S' ['e', 't'] 'B' [] rfl (List.all_eq_true.mp rfl) rfl (List.all_eq_true.mp rfl),
      by decide⟩
  have hnumber : Unsigned 2.5 := by
    unfold Unsigned
    decide +kernel
  have hfinite : (2.5 : Float).isFinite := by decide +kernel
  refine (tokenize_describe ?_ ?_ ?_).trans ?_
  · simp [AllReadable, Token.Readable, Token.Precedes, Operator.Precedes, Operator.isSign, hsum, hx,
      hset, hnumber]
  · simp [AllExact, Token.Exact, hfinite]
  · simp [sequenceLevels, Token.levels]
  · simp only [lowerAll, Token.lowered]
    decide +kernel

end Reckon
