import Mathlib.Order.Bounds.Defs
import Reckon.Suggestion

/-!
The distance of names is the least number of edits between them, and the name that is suggested is the
first of the nearest ones.

The matrix of distances between the beginnings of two texts is computed row by row. A cell is the
distance of two beginnings read backwards, for which the recursion on the first characters is the one on
the last characters of the beginnings. Reading backwards changes no number of edits.
-/

namespace Reckon

/-- One edit of a text: a character is inserted, deleted, or put in the place of another. -/
inductive Edit : List Char → List Char → Prop
  | insert (c : Char) (before after : List Char) : Edit (before ++ after) (before ++ c :: after)
  | delete (c : Char) (before after : List Char) : Edit (before ++ c :: after) (before ++ after)
  | substitute (c d : Char) (before after : List Char) :
    Edit (before ++ c :: after) (before ++ d :: after)

/-- So many edits, one after another. -/
inductive Edits : Nat → List Char → List Char → Prop
  | none (cs : List Char) : Edits 0 cs cs
  | more {n : Nat} {cs ds es : List Char} : Edit cs ds → Edits n ds es → Edits (n + 1) cs es

theorem Edit.cons {cs ds : List Char} (h : Edit cs ds) (c : Char) : Edit (c :: cs) (c :: ds) := by
  cases h with
  | insert d before after => exact .insert d (c :: before) after
  | delete d before after => exact .delete d (c :: before) after
  | substitute d e before after => exact .substitute d e (c :: before) after

theorem Edit.reverse {cs ds : List Char} (h : Edit cs ds) : Edit cs.reverse ds.reverse := by
  cases h with
  | insert c before after => simpa using Edit.insert c after.reverse before.reverse
  | delete c before after => simpa using Edit.delete c after.reverse before.reverse
  | substitute c d before after => simpa using Edit.substitute c d after.reverse before.reverse

theorem Edits.cons {n : Nat} {cs ds : List Char} (h : Edits n cs ds) (c : Char) :
    Edits n (c :: cs) (c :: ds) := by
  induction h with
  | none cs => exact .none (c :: cs)
  | more hfirst _ ih => exact .more (hfirst.cons c) ih

theorem Edits.reverse {n : Nat} {cs ds : List Char} (h : Edits n cs ds) :
    Edits n cs.reverse ds.reverse := by
  induction h with
  | none cs => exact .none cs.reverse
  | more hfirst _ ih => exact .more hfirst.reverse ih

theorem edits_reverse_iff {n : Nat} {cs ds : List Char} :
    Edits n cs.reverse ds.reverse ↔ Edits n cs ds := by
  refine ⟨fun h => ?_, Edits.reverse⟩
  have hback := h.reverse
  rwa [List.reverse_reverse, List.reverse_reverse] at hback

theorem Edits.min {m n : Nat} {cs ds : List Char} (hm : Edits m cs ds) (hn : Edits n cs ds) :
    Edits (min m n) cs ds := by
  rcases Nat.le_total m n with h | h
  · rwa [Nat.min_eq_left h]
  · rwa [Nat.min_eq_right h]

/-! The distance by the first characters. -/

/-- The distance of two texts: their first characters are matched, or one of the two is left out. -/
def distance : List Char → List Char → Nat
  | [], ds => ds.length
  | c :: cs, [] => cs.length + 1
  | c :: cs, d :: ds =>
    min (min (distance cs ds + if c = d then 0 else 1) (distance cs (d :: ds) + 1))
      (distance (c :: cs) ds + 1)

@[simp] theorem distance_nil_left (ds : List Char) : distance [] ds = ds.length := by
  rw [distance]

@[simp] theorem distance_nil_right (cs : List Char) : distance cs [] = cs.length := by
  cases cs <;> simp [distance]

theorem distance_cons_cons (c d : Char) (cs ds : List Char) :
    distance (c :: cs) (d :: ds) =
      min (min (distance cs ds + if c = d then 0 else 1) (distance cs (d :: ds) + 1))
        (distance (c :: cs) ds + 1) := by
  rw [distance]

theorem edits_insertAll (ds : List Char) : Edits ds.length [] ds := by
  induction ds with
  | nil => exact .none []
  | cons d ds ih => exact .more (.insert d [] []) (ih.cons d)

theorem edits_deleteAll (cs : List Char) : Edits cs.length cs [] := by
  induction cs with
  | nil => exact .none []
  | cons c cs ih => exact .more (.delete c [] cs) ih

/-- As many edits as the distance lead from one text to the other. -/
theorem edits_distance (cs ds : List Char) : Edits (distance cs ds) cs ds := by
  induction cs, ds using distance.induct with
  | case1 ds => exact distance_nil_left ds ▸ edits_insertAll ds
  | case2 c cs => exact distance_nil_right (c :: cs) ▸ edits_deleteAll (c :: cs)
  | case3 c cs d ds hboth hleft hright =>
    have hmatch : Edits (distance cs ds + if c = d then 0 else 1) (c :: cs) (d :: ds) := by
      split
      · rename_i h
        exact h ▸ hboth.cons c
      · exact .more (.substitute c d [] cs) (hboth.cons d)
    have hdelete : Edits (distance cs (d :: ds) + 1) (c :: cs) (d :: ds) :=
      .more (.delete c [] cs) hleft
    have hinsert : Edits (distance (c :: cs) ds + 1) (c :: cs) (d :: ds) :=
      .more (.insert d [] (c :: cs)) (hright.cons d)
    rw [distance_cons_cons]
    exact (hmatch.min hdelete).min hinsert

/-! One edit changes the distance to any text by at most one. -/

theorem distance_cons_left_le (c : Char) (cs ds : List Char) :
    distance (c :: cs) ds ≤ distance cs ds + 1 := by
  cases ds with
  | nil => simp
  | cons d ds =>
    rw [distance_cons_cons]
    omega

theorem distance_cons_right_le (d : Char) (cs ds : List Char) :
    distance cs (d :: ds) ≤ distance cs ds + 1 := by
  cases cs with
  | nil => simp
  | cons c cs =>
    rw [distance_cons_cons]
    omega

theorem distance_le_cons_left (c : Char) (cs ds : List Char) :
    distance cs ds ≤ distance (c :: cs) ds + 1 := by
  induction ds with
  | nil =>
    simp only [distance_nil_right, List.length_cons]
    omega
  | cons d ds ih =>
    have h := distance_cons_right_le d cs ds
    rw [distance_cons_cons]
    split <;> omega

theorem distance_substitute_le (c d : Char) (cs es : List Char) :
    distance (c :: cs) es ≤ distance (d :: cs) es + 1 := by
  induction es with
  | nil => simp
  | cons e es ih =>
    rw [distance_cons_cons c, distance_cons_cons d]
    split <;> split <;> omega

/-- What holds of two texts for the distance to all others holds with one more character before both. -/
theorem distance_cons_cons_le {cs ds : List Char}
    (h : ∀ es, distance cs es ≤ distance ds es + 1) (c : Char) (es : List Char) :
    distance (c :: cs) es ≤ distance (c :: ds) es + 1 := by
  induction es with
  | nil => simpa using h []
  | cons e es ih =>
    have hboth := h es
    have hleft := h (e :: es)
    rw [distance_cons_cons c, distance_cons_cons c]
    omega

theorem distance_prepend_le {cs ds : List Char} (h : ∀ es, distance cs es ≤ distance ds es + 1)
    (before es : List Char) : distance (before ++ cs) es ≤ distance (before ++ ds) es + 1 := by
  induction before generalizing es with
  | nil => exact h es
  | cons c before ih => exact distance_cons_cons_le ih c es

theorem Edit.distance_le {cs ds : List Char} (h : Edit cs ds) (es : List Char) :
    distance cs es ≤ distance ds es + 1 := by
  cases h with
  | insert c before after => exact distance_prepend_le (distance_le_cons_left c after) before es
  | delete c before after => exact distance_prepend_le (distance_cons_left_le c after) before es
  | substitute c d before after =>
    exact distance_prepend_le (distance_substitute_le c d after) before es

theorem distance_self (cs : List Char) : distance cs cs = 0 := by
  induction cs with
  | nil => rw [distance_nil_left, List.length_nil]
  | cons c cs ih =>
    rw [distance_cons_cons, ih, if_pos rfl]
    omega

/-- Fewer edits than the distance do not lead from one text to the other. -/
theorem Edits.distance_le {n : Nat} {cs ds : List Char} (h : Edits n cs ds) :
    distance cs ds ≤ n := by
  induction h with
  | none cs => exact Nat.le_of_eq (distance_self cs)
  | more hfirst _ ih => exact Nat.le_trans (hfirst.distance_le _) (Nat.succ_le_succ ih)

theorem isLeast_distance (cs ds : List Char) : IsLeast {n | Edits n cs ds} (distance cs ds) :=
  ⟨edits_distance cs ds, fun _ h => h.distance_le⟩

/-! The rows of the matrix. -/

/-- The cells of a row to the right of one: the distances of a text to another with more and more
characters before it. -/
def cellsFrom (cs ds : List Char) : List Char → List Nat
  | [] => []
  | e :: es => distance cs (e :: ds) :: cellsFrom cs (e :: ds) es

/-- The row of a text that was read backwards. -/
def rowOf (cs es : List Char) : List Nat := cs.length :: cellsFrom cs [] es

theorem cellsFrom_nil (ds es : List Char) :
    cellsFrom [] ds es = List.range' (ds.length + 1) es.length := by
  induction es generalizing ds with
  | nil => rfl
  | cons e es ih =>
    rw [cellsFrom, ih, distance_nil_left]
    rfl

theorem rowOf_nil (es : List Char) : rowOf [] es = List.range (es.length + 1) := by
  rw [rowOf, cellsFrom_nil, List.range_eq_range', List.range'_succ]
  rfl

/-- A cell is made of the one above it, the one to its left, and the one above that. -/
theorem extendRow_cellsFrom (c : Char) (cs ds es : List Char) :
    extendRow c (distance (c :: cs) ds) (distance cs ds) es (cellsFrom cs ds es) =
      cellsFrom (c :: cs) ds es := by
  induction es generalizing ds with
  | nil => rfl
  | cons e es ih =>
    rw [cellsFrom, cellsFrom, extendRow, ← distance_cons_cons, ih]

theorem nextRow_rowOf (c : Char) (cs es : List Char) :
    nextRow es (rowOf cs es) c = rowOf (c :: cs) es := by
  have h := extendRow_cellsFrom c cs [] es
  rw [distance_nil_right, distance_nil_right] at h
  rw [rowOf, rowOf, nextRow, ← h]
  rfl

theorem foldl_nextRow (before cs es : List Char) :
    cs.foldl (nextRow es) (rowOf before es) = rowOf (cs.reverse ++ before) es := by
  induction cs generalizing before with
  | nil => rfl
  | cons c cs ih =>
    rw [List.foldl_cons, nextRow_rowOf, ih, List.reverse_cons, List.append_assoc]
    rfl

theorem getLastD_cellsFrom (cs ds es : List Char) (n : Nat) :
    (distance cs ds :: cellsFrom cs ds es).getLastD n = distance cs (es.reverse ++ ds) := by
  induction es generalizing ds n with
  | nil => rfl
  | cons e es ih =>
    rw [cellsFrom, List.getLastD_cons, ih, List.reverse_cons, List.append_assoc]
    rfl

theorem editDistance_eq (cs ds : List Char) :
    editDistance cs ds = distance cs.reverse ds.reverse := by
  have hlast := getLastD_cellsFrom cs.reverse [] ds 0
  rw [distance_nil_right, List.append_nil] at hlast
  rw [editDistance, ← rowOf_nil, foldl_nextRow, List.append_nil]
  exact hlast

/-- The last cell of the matrix is the least number of edits. -/
theorem isLeast_editDistance (cs ds : List Char) :
    IsLeast {n | Edits n cs ds} (editDistance cs ds) := by
  have h := isLeast_distance cs.reverse ds.reverse
  simp only [edits_reverse_iff] at h
  rwa [editDistance_eq]

example : editDistance "kitten".toList "sitting".toList = 3 := by decide

/-! Two rows that change places, each written over the row before the last. -/

/-- Writes the cells of a row behind a place, from left to right, over what the row holds. -/
def overwriteRow (c : Char) (above : List Nat) : Nat → List Char → List Nat → List Nat
  | _, [], row => row
  | j, d :: ds, row =>
    let substitution := above.getD j 0 + if c = d then 0 else 1
    let n := min (min substitution (above.getD (j + 1) 0 + 1)) (row.getD j 0 + 1)
    overwriteRow c above (j + 1) ds (row.set (j + 1) n)

/-- The last row, and the one before it, after some more characters. -/
def alternateRows (ds : List Char) : Nat → List Char → List Nat → List Nat → List Nat × List Nat
  | _, [], above, row => (above, row)
  | i, c :: cs, above, row =>
    alternateRows ds (i + 1) cs (overwriteRow c above 0 ds (row.set 0 (i + 1))) above

/-- The number of edits between two texts, with storage for two rows only. -/
def twoRowDistance (cs ds : List Char) : Nat :=
  (alternateRows ds 0 cs (List.range (ds.length + 1)) (List.replicate (ds.length + 1) 0)).1.getD
    ds.length 0

/-- What the overwritten cells held is never read: a cell is written before it is looked at. -/
theorem overwriteRow_eq (c : Char) (ds : List Char) (before done : List Nat)
    (hdone : done.length = before.length) (corner left : Nat) {above stale : List Nat}
    (habove : above.length = ds.length) (hstale : stale.length = ds.length) :
    overwriteRow c (before ++ corner :: above) before.length ds (done ++ left :: stale) =
      done ++ left :: extendRow c left corner ds above := by
  induction ds generalizing before done corner left above stale with
  | nil =>
    rw [List.eq_nil_of_length_eq_zero hstale]
    cases above <;> rfl
  | cons d ds ih =>
    obtain ⟨a, above, rfl⟩ := List.exists_cons_of_length_eq_add_one habove
    obtain ⟨old, stale, rfl⟩ := List.exists_cons_of_length_eq_add_one hstale
    have hnext := ih (before ++ [corner]) (done ++ [left]) (by simp [hdone]) a
      (min (min (corner + if c = d then 0 else 1) (a + 1)) (left + 1))
      (Nat.succ.inj habove) (Nat.succ.inj hstale)
    simp only [List.append_assoc, List.singleton_append, List.length_append, List.length_singleton]
      at hnext
    simp only [overwriteRow, extendRow, ← hnext]
    simp [← hdone, List.set_append_right]

theorem length_cellsFrom (cs ds es : List Char) : (cellsFrom cs ds es).length = es.length := by
  induction es generalizing ds with
  | nil => rfl
  | cons e es ih => exact congrArg (· + 1) (ih (e :: ds))

theorem length_rowOf (cs es : List Char) : (rowOf cs es).length = es.length + 1 :=
  congrArg (· + 1) (length_cellsFrom cs [] es)

/-- Whatever row it is written over, the next row is that of one more character. -/
theorem overwriteRow_rowOf (c : Char) (cs es : List Char) {row : List Nat}
    (hrow : row.length = es.length + 1) :
    overwriteRow c (rowOf cs es) 0 es (row.set 0 (cs.length + 1)) = rowOf (c :: cs) es := by
  obtain ⟨old, stale, rfl⟩ := List.exists_cons_of_length_eq_add_one hrow
  have h := overwriteRow_eq c es [] [] rfl cs.length (cs.length + 1)
    (length_cellsFrom cs [] es) (Nat.succ.inj hrow)
  rw [← nextRow_rowOf]
  exact h

theorem alternateRows_rowOf (es before cs : List Char) (row : List Nat)
    (hrow : row.length = es.length + 1) :
    (alternateRows es before.length cs (rowOf before es) row).1 =
      rowOf (cs.reverse ++ before) es := by
  induction cs generalizing before row with
  | nil => rfl
  | cons c cs ih =>
    rw [alternateRows, overwriteRow_rowOf c before es hrow, List.reverse_cons, List.append_assoc]
    exact ih (c :: before) _ (length_rowOf before es)

/-- Two rows are storage enough. -/
theorem twoRowDistance_eq (cs ds : List Char) : twoRowDistance cs ds = editDistance cs ds := by
  have hrow := alternateRows_rowOf ds [] cs (List.replicate (ds.length + 1) 0) (by simp)
  have hlength := length_rowOf (cs.reverse ++ []) ds
  rw [List.length_nil] at hrow
  rw [twoRowDistance, editDistance, ← rowOf_nil, foldl_nextRow, hrow, List.getLastD_eq_getLast?,
    List.getLast?_eq_getElem?, hlength]
  exact List.getD_eq_getElem?_getD

/-! The nearest candidate. -/

section Nearest

variable {name found : String} {candidates : List String} {bound : Nat}

/-- Whether a candidate within the bound is nearest to the name, and no earlier one is as near. -/
def IsNearest (name : String) (candidates : List String) (bound : Nat) (found : String) : Prop :=
  ∃ before after, candidates = before ++ found :: after ∧ nameDistance name found ≤ bound ∧
    (∀ c ∈ before, nameDistance name found < nameDistance name c) ∧
    ∀ c ∈ after, nameDistance name found ≤ nameDistance name c

theorem IsNearest.mem (h : IsNearest name candidates bound found) : found ∈ candidates := by
  obtain ⟨before, after, rfl, -⟩ := h
  exact List.mem_append_right before List.mem_cons_self

theorem IsNearest.le (h : IsNearest name candidates bound found) {c : String}
    (hc : c ∈ candidates) : nameDistance name found ≤ nameDistance name c := by
  obtain ⟨before, after, rfl, -, hbefore, hafter⟩ := h
  rcases List.mem_append.mp hc with hc | hc
  · exact Nat.le_of_lt (hbefore c hc)
  · rcases List.mem_cons.mp hc with rfl | hc
    · exact Nat.le_refl _
    · exact hafter c hc

/-- The first candidate is nearest, or it is farther than the nearest of the others. -/
theorem isNearest_cons {c : String} :
    IsNearest name (c :: candidates) bound found ↔
      (found = c ∧ nameDistance name c ≤ bound ∧
        ∀ other ∈ candidates, nameDistance name c ≤ nameDistance name other) ∨
      (nameDistance name found < nameDistance name c ∧
        IsNearest name candidates bound found) := by
  constructor
  · rintro ⟨before, after, hsplit, hbound, hbefore, hafter⟩
    cases before with
    | nil =>
      obtain ⟨rfl, rfl⟩ := List.cons.inj hsplit
      exact .inl ⟨rfl, hbound, hafter⟩
    | cons b before =>
      obtain ⟨rfl, rfl⟩ := List.cons.inj hsplit
      obtain ⟨hc, hbefore⟩ := List.forall_mem_cons.mp hbefore
      exact .inr ⟨hc, before, after, rfl, hbound, hbefore, hafter⟩
  · rintro (⟨rfl, hbound, hafter⟩ | ⟨hc, before, after, rfl, hbound, hbefore, hafter⟩)
    · exact ⟨[], candidates, rfl, hbound, by simp, hafter⟩
    · exact ⟨c :: before, after, rfl, hbound, List.forall_mem_cons.mpr ⟨hc, hbefore⟩, hafter⟩

theorem fst_of_nearest {d : Nat} (h : nearest name candidates = some (d, found)) :
    d = nameDistance name found := by
  induction candidates generalizing d found with
  | nil => simp [nearest] at h
  | cons c candidates ih =>
    simp only [nearest] at h
    split at h
    · rename_i hrest
      split at h
      · obtain ⟨rfl, rfl⟩ := Prod.mk.inj (Option.some.inj h)
        exact ih hrest
      · obtain ⟨rfl, rfl⟩ := Prod.mk.inj (Option.some.inj h)
        rfl
    · obtain ⟨rfl, rfl⟩ := Prod.mk.inj (Option.some.inj h)
      rfl

theorem findSimilar_cons (c : String) :
    findSimilar name (c :: candidates) bound =
      if nameDistance name c ≤ bound then
        match findSimilar name candidates bound with
        | some other => if nameDistance name other < nameDistance name c then some other else some c
        | none => some c
      else findSimilar name candidates bound := by
  unfold findSimilar
  rw [List.filter_cons]
  simp only [decide_eq_true_eq]
  split
  · rw [nearest]
    cases hrest : nearest name (candidates.filter fun c => nameDistance name c ≤ bound) with
    | none => rfl
    | some nearer =>
      obtain ⟨d, other⟩ := nearer
      obtain rfl := fst_of_nearest hrest
      simp only [Option.map_some]
      split <;> rfl
  · rfl

theorem findSimilar_eq_none_iff :
    findSimilar name candidates bound = none ↔ ∀ c ∈ candidates, bound < nameDistance name c := by
  induction candidates with
  | nil => simp [findSimilar, nearest]
  | cons c candidates ih =>
    rw [findSimilar_cons, List.forall_mem_cons, ← ih]
    split
    · rename_i hc
      refine iff_of_false (fun h => ?_) fun h => absurd h.1 (Nat.not_lt_of_le hc)
      split at h
      · split at h <;> contradiction
      · contradiction
    · rename_i hc
      exact (and_iff_right (Nat.lt_of_not_le hc)).symm

theorem findSimilar_eq_some_iff :
    findSimilar name candidates bound = some found ↔ IsNearest name candidates bound found := by
  induction candidates generalizing found with
  | nil => simp [findSimilar, nearest, IsNearest]
  | cons c candidates ih =>
    rw [findSimilar_cons, isNearest_cons, ← ih]
    split
    · rename_i hc
      cases hrest : findSimilar name candidates bound with
      | none =>
        have hfar : ∀ other ∈ candidates, nameDistance name c ≤ nameDistance name other :=
          fun other hother =>
            Nat.le_of_lt (Nat.lt_of_le_of_lt hc (findSimilar_eq_none_iff.mp hrest other hother))
        simp only [Option.some.injEq, reduceCtorEq, and_false, or_false]
        exact ⟨fun h => ⟨h.symm, hc, hfar⟩, fun h => h.1.symm⟩
      | some other =>
        have hother := ih.mp hrest
        by_cases hlt : nameDistance name other < nameDistance name c
        · simp only [if_pos hlt, Option.some.injEq]
          constructor
          · rintro rfl
            exact .inr ⟨hlt, rfl⟩
          · rintro (⟨rfl, -, hfirst⟩ | ⟨-, h⟩)
            · exact absurd (hfirst other hother.mem) (Nat.not_le_of_lt hlt)
            · exact h
        · simp only [if_neg hlt, Option.some.injEq]
          constructor
          · rintro rfl
            exact .inl ⟨rfl, hc, fun d hd => Nat.le_trans (Nat.le_of_not_lt hlt) (hother.le hd)⟩
          · rintro (⟨rfl, -⟩ | ⟨hfound, rfl⟩)
            · rfl
            · exact absurd hfound hlt
    · rename_i hc
      refine ⟨fun h => .inr ⟨?_, h⟩, ?_⟩
      · obtain ⟨_, _, _, hbound, -⟩ := ih.mp h
        exact Nat.lt_of_le_of_lt hbound (Nat.lt_of_not_le hc)
      · rintro (⟨-, hle, -⟩ | ⟨-, h⟩)
        · exact absurd hle hc
        · exact h

end Nearest

/-- The distance of two names is the least number of edits between their lower-case forms, also if only
two rows of its matrix are kept. A name has no suggestion if all candidates are farther than the bound,
and otherwise the first of the candidates of least distance. -/
theorem suggestions_by_edits :
    (∀ a b : String,
      IsLeast {n | Edits n (foldName a).toList (foldName b).toList} (nameDistance a b) ∧
      twoRowDistance (foldName a).toList (foldName b).toList = nameDistance a b) ∧
    ∀ (name : String) (candidates : List String) (bound : Nat),
      (findSimilar name candidates bound = none ↔
        ∀ c ∈ candidates, bound < nameDistance name c) ∧
      ∀ found, findSimilar name candidates bound = some found ↔
        IsNearest name candidates bound found :=
  ⟨fun _ _ => ⟨isLeast_editDistance _ _, twoRowDistance_eq _ _⟩,
    fun _ _ _ => ⟨findSimilar_eq_none_iff, fun _ => findSimilar_eq_some_iff⟩⟩

end Reckon
