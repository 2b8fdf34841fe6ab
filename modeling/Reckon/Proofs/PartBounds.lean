import Reckon.Builtin.Textual
import Reckon.Proofs.FloatOrder

/-!
Where a part of a text is cut.

The places are clamped in several ways, on integers of 64 bits, before the part is taken as a slice.
`checkedPart?` does this with every operation that can overflow and with bounds that can be out of
range, and gives nothing if that happens. It never does, so the part is exactly what clamping without
bounds gives, and a text is put together again from a part at its start and the part behind it.
-/

namespace Reckon

/-- An integer that has 64 bits with its sign, as the result of an operation. -/
def word? (n : Int) : Option Int :=
  if leastInteger ≤ n ∧ n ≤ greatestInteger then some n else none

/-- The members of a list between two places, which must be in order and within the list. -/
def slice? {α : Type} (xs : List α) (first stop : Int) : Option (List α) :=
  if 0 ≤ first ∧ first ≤ stop ∧ stop ≤ xs.length then
    some ((xs.drop first.toNat).take (stop - first).toNat)
  else none

/-- Where a part begins; a negative place counts from the end. -/
def wordStart? (total start : Int) : Option Int :=
  if start < 0 then (word? (total + start)).map (max · 0) else some (min start total)

/-- How many user-perceived characters a part has: all that are left if no number is given. -/
def wordCount (left : Int) : Option Int → Int
  | some length => min length left
  | none => left

/-- So many user-perceived characters from a place on. -/
def sliceFrom? (clusters : List (List Char)) (total first : Int) (length? : Option Int) :
    Option (List (List Char)) := do
  let left ← word? (total - first)
  let stop ← word? (first + wordCount left length?)
  slice? clusters first stop

/-- The user-perceived characters of a value as a text. -/
def Value.clusters (v : Value) : List (List Char) := graphemes v.toText.toList

/-- The part of a text, or nothing if an integer overflows or a bound is out of range. -/
def checkedPart? (text start : Value) (length? : Option Value) : Option (Except Failure Value) := do
  let clusters := text.clusters
  let total ← word? clusters.length
  let first ← wordStart? total (toInteger start.toNumber)
  match length? with
  | none =>
    let slice ← sliceFrom? clusters total first none
    return .ok (.text (String.ofList slice.flatten))
  | some value =>
    let length := value.toNumber
    if length < 0 then
      return .error
        (.argumentType "substr" "a non-negative length" (String.ofList (numberText length)))
    let slice ← sliceFrom? clusters total first (some (toInteger length))
    return .ok (.text (String.ofList slice.flatten))

theorem toInteger_bounds (x : Float) :
    leastInteger ≤ toInteger x ∧ toInteger x ≤ greatestInteger := by
  have hmin : leastInteger ≤ 0 := by decide
  have hmax : 0 ≤ greatestInteger := by decide
  unfold toInteger
  split
  · simp only
    omega
  · split
    · exact ⟨hmin, hmax⟩
    · split <;> omega

theorem word?_eq_some {n : Int} (hlow : leastInteger ≤ n) (hhigh : n ≤ greatestInteger) :
    word? n = some n :=
  if_pos ⟨hlow, hhigh⟩

theorem partStart_le (total : Nat) (start : Int) : partStart total start ≤ total := by
  unfold partStart
  split <;> omega

theorem cast_partStart (total : Nat) (start : Int) :
    (partStart total start : Int) =
      if start < 0 then max (total + start) 0 else min start total := by
  unfold partStart
  split <;> omega

section Bounds

variable {total : Nat} {start : Int}

theorem wordStart?_eq (htotal : total ≤ greatestInteger) (hstart : leastInteger ≤ start) :
    wordStart? total start = some (partStart total start : Int) := by
  rw [cast_partStart, wordStart?]
  split
  · rw [word?_eq_some (by omega) (by omega), Option.map_some]
  · rfl

theorem slice?_eq {α : Type} {xs : List α} {first count : Nat} (h : first + count ≤ xs.length) :
    slice? xs first (first + count) = some ((xs.drop first).take count) := by
  have hcount : ((first : Int) + count - first).toNat = count := by omega
  rw [slice?, if_pos (by omega), Int.toNat_natCast, hcount]

/-- How many user-perceived characters a part has, of those left from its beginning on. -/
def partCount (left : Nat) : Option Int → Nat
  | some length => min length.toNat left
  | none => left

theorem partCount_le (left : Nat) (length? : Option Int) : partCount left length? ≤ left := by
  cases length? with
  | none => exact Nat.le_refl left
  | some length => exact Nat.min_le_right length.toNat left

theorem wordCount_eq (left : Nat) {length? : Option Int} (h : ∀ length ∈ length?, 0 ≤ length) :
    wordCount left length? = (partCount left length? : Int) := by
  cases length? with
  | none => rfl
  | some length =>
    have hnonneg := h length rfl
    simp only [wordCount, partCount]
    omega

theorem partOf_eq (clusters : List (List Char)) (start : Int) (length? : Option Int) :
    partOf clusters start length? =
      ((clusters.drop (partStart clusters.length start)).take
        (partCount (clusters.length - partStart clusters.length start) length?)).flatten := by
  cases length? <;> rfl

theorem sliceFrom?_eq {clusters : List (List Char)} {first : Nat} (length? : Option Int)
    (htotal : clusters.length ≤ greatestInteger) (hfirst : first ≤ clusters.length)
    (hlength : ∀ length ∈ length?, 0 ≤ length) :
    sliceFrom? clusters clusters.length first length? =
      some ((clusters.drop first).take (partCount (clusters.length - first) length?)) := by
  have hmin : leastInteger ≤ 0 := by decide
  have hbound := partCount_le (clusters.length - first) length?
  have hleft : word? ((clusters.length : Int) - first) =
      some ((clusters.length - first : Nat) : Int) := by
    rw [← Int.ofNat_sub hfirst]
    exact word?_eq_some (by omega) (by omega)
  simp only [sliceFrom?, hleft, Option.bind_eq_bind, Option.bind_some, wordCount_eq _ hlength]
  rw [word?_eq_some (by omega) (by omega), Option.bind_some]
  exact slice?_eq (by omega)

end Bounds

section Part

variable (text start : Value)

theorem length_continueFrom_le (e : Grapheme.Ending) (cs : List Char) :
    (Grapheme.continueFrom e cs).2.length ≤ cs.length := by
  induction cs generalizing e with
  | nil => exact Nat.le_refl 0
  | cons c cs ih =>
    rw [Grapheme.continueFrom]
    split
    · exact Nat.succ_le_succ (ih (.start c))
    · exact Nat.le_succ_of_le (ih (e.push c))

/-- There are no more user-perceived characters than characters. -/
theorem length_clusters_le : text.clusters.length ≤ text.toText.toList.length := by
  rw [Value.clusters]
  cases text.toText.toList with
  | nil => exact Nat.le_refl 0
  | cons c cs => exact Nat.succ_le_succ (length_continueFrom_le (.start c) cs)

theorem part_without_length :
    Builtin.part [text, start] =
      .ok (.text (String.ofList (partOf text.clusters (toInteger start.toNumber) none))) :=
  rfl

theorem part_with_length (length : Value) :
    Builtin.part [text, start, length] =
      if length.toNumber < 0 then
        .error (.argumentType "substr" "a non-negative length"
          (String.ofList (numberText length.toNumber)))
      else .ok (.text (String.ofList (partOf text.clusters (toInteger start.toNumber)
        (some (toInteger length.toNumber))))) :=
  rfl

/-- No integer overflows, and no bound is out of range. -/
theorem checkedPart?_eq {text : Value} (htotal : text.clusters.length ≤ greatestInteger)
    (length? : Option Value) :
    checkedPart? text start length? = some (Builtin.part (text :: start :: length?.toList)) := by
  have hmin : leastInteger ≤ 0 := by decide
  have hcount : word? text.clusters.length = some (text.clusters.length : Int) :=
    word?_eq_some (by omega) htotal
  have hstart := wordStart?_eq htotal (toInteger_bounds start.toNumber).1
  have hfirst := partStart_le text.clusters.length (toInteger start.toNumber)
  simp only [checkedPart?, hcount, Option.bind_eq_bind, Option.bind_some, hstart]
  cases length? with
  | none =>
    simp only [sliceFrom?_eq none htotal hfirst (by simp), Option.bind_some,
      ← partOf_eq]
    rfl
  | some length =>
    simp only [Option.toList_some, part_with_length]
    split
    · rfl
    · rename_i hlength
      have hnonneg : ∀ n ∈ some (toInteger length.toNumber), 0 ≤ n := by
        simpa using toInteger_nonneg hlength
      simp only [sliceFrom?_eq _ htotal hfirst hnonneg, Option.bind_some, ← partOf_eq]
      rfl

/-- A call fails just if a length below zero is given. -/
theorem part_fails_iff (length? : Option Value) :
    (∃ failure, Builtin.part (text :: start :: length?.toList) = .error failure) ↔
      ∃ length ∈ length?, length.toNumber < 0 := by
  cases length? with
  | none => simp [part_without_length]
  | some length =>
    simp only [Option.toList_some, part_with_length, Option.mem_some_iff, exists_eq_left']
    split <;> simp [*]

theorem part_eq {length? : Option Value} (h : ∀ length ∈ length?, ¬length.toNumber < 0) :
    Builtin.part (text :: start :: length?.toList) =
      .ok (.text (String.ofList (partOf text.clusters (toInteger start.toNumber)
        (length?.map fun length => toInteger length.toNumber)))) := by
  cases length? with
  | none => rfl
  | some length =>
    rw [Option.toList_some, part_with_length, if_neg (h length rfl)]
    rfl

theorem flatten_clusters : String.ofList text.clusters.flatten = text.toText := by
  rw [Value.clusters, flatten_graphemes, String.ofList_toList]

theorem partOf_append_partOf (clusters : List (List Char)) {k : Int} (hk : 0 ≤ k) :
    partOf clusters 0 (some k) ++ partOf clusters k none = clusters.flatten := by
  have hzero : partStart clusters.length 0 = 0 := by simp [partStart]
  have hfirst : partStart clusters.length k = min k.toNat clusters.length :=
    if_neg (Int.not_lt_of_ge hk)
  rw [partOf_eq, partOf_eq, hzero, hfirst, ← List.flatten_append]
  simp only [partCount, List.drop_zero, Nat.sub_zero]
  rw [List.take_of_length_le (l := List.drop _ _) (by simp), List.take_append_drop]

end Part

/-- A part of a text is cut out within bounds. With less than `2 ^ 63` user-perceived characters no
integer overflows and the slice is in range. A call fails just if its length is below zero. Otherwise it
gives `count` characters from the place `first` on, where a negative place counts from the end, and a text
is what stands before a place followed by what stands behind it. -/
theorem part_within_bounds (text start : Value) (length? : Option Value) :
    (text.clusters.length ≤ greatestInteger →
      checkedPart? text start length? = some (Builtin.part (text :: start :: length?.toList))) ∧
    ((∃ failure, Builtin.part (text :: start :: length?.toList) = .error failure) ↔
      ∃ length ∈ length?, length.toNumber < 0) ∧
    ((∀ length ∈ length?, ¬length.toNumber < 0) → ∃ first count : Nat,
      (first : Int) =
        (if toInteger start.toNumber < 0 then
          max (text.clusters.length + toInteger start.toNumber) 0
        else min (toInteger start.toNumber) text.clusters.length) ∧
      (count : Int) = (match length? with
        | some length => min (toInteger length.toNumber) (text.clusters.length - first)
        | none => text.clusters.length - first) ∧
      first + count ≤ text.clusters.length ∧
      Builtin.part (text :: start :: length?.toList) =
        .ok (.text (String.ofList ((text.clusters.drop first).take count).flatten))) ∧
    ∀ k : Value, ¬k.toNumber < 0 → ∃ before after,
      Builtin.part [text, .number 0.0, k] = .ok (.text before) ∧
      Builtin.part [text, k] = .ok (.text after) ∧ before ++ after = text.toText := by
  refine ⟨fun htotal => checkedPart?_eq start htotal length?, part_fails_iff text start length?,
    fun h => ?_, fun k hk => ?_⟩
  · have hfirst := partStart_le text.clusters.length (toInteger start.toNumber)
    have hpart := part_eq text start h
    rw [partOf_eq] at hpart
    refine ⟨_, _, cast_partStart _ _, ?_, ?_, hpart⟩
    · cases length? with
      | none =>
        simp only [Option.map_none, partCount]
        omega
      | some length =>
        have hnonneg := toInteger_nonneg (h length rfl)
        simp only [Option.map_some, partCount]
        omega
    · have hcount := partCount_le (text.clusters.length -
        partStart text.clusters.length (toInteger start.toNumber))
        (length?.map fun length => toInteger length.toNumber)
      omega
  · refine ⟨_, _, (part_with_length text _ k).trans (if_neg hk), part_without_length text k, ?_⟩
    have hzero : toInteger (Value.number 0.0).toNumber = 0 := by decide +kernel
    rw [hzero, ← String.ofList_append, partOf_append_partOf _ (toInteger_nonneg hk),
      flatten_clusters]

theorem part_within_bounds_infinite :
    (Value.text "reckon").clusters.length ≤ greatestInteger ∧
    checkedPart? (.text "reckon") (.text "-1e400") (some (.number (1.0 / 0.0))) =
      some (Builtin.part [.text "reckon", .text "-1e400", .number (1.0 / 0.0)]) ∧
    (¬(Value.number (1.0 / 0.0)).toNumber < 0 ∧ ∃ first count : Nat,
      first + count ≤ (Value.text "reckon").clusters.length ∧
      Builtin.part [.text "reckon", .text "-1e400", .number (1.0 / 0.0)] =
        .ok (.text (String.ofList
          (((Value.text "reckon").clusters.drop first).take count).flatten))) := by
  have h := part_within_bounds (.text "reckon") (.text "-1e400") (some (.number (1.0 / 0.0)))
  have hsize : (Value.text "reckon").clusters.length ≤ greatestInteger :=
    Int.le_trans (Int.ofNat_le.mpr (length_clusters_le (.text "reckon"))) (by decide)
  have hlength : ¬(Value.number (1.0 / 0.0)).toNumber < 0 := by decide +kernel
  obtain ⟨first, count, -, -, hle, hpart⟩ := h.2.2.1 (by simpa using hlength)
  exact ⟨hsize, h.1 hsize, hlength, first, count, hle, hpart⟩

end Reckon
