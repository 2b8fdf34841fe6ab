import Reckon.Proofs.NumberReading
import Reckon.Table

/-!
Names as they are written, and their lower-case forms.

A name is made of ASCII letters, digits and underscores, with at most one more part after two colons.
Its lower-case form is again a name, is its own lower-case form, and spells a word operator only if the
name does.
-/

namespace Reckon

/-- Names: a letter or underscore, then letters, digits and underscores; after two colons a second
part may follow, which starts with a letter. -/
inductive IsName : List Char → Prop where
  | simple {c cs} : isNameStart c → (∀ d ∈ cs, isNameChar d) → IsName (c :: cs)
  | qualified {c cs d ds} : isNameStart c → (∀ e ∈ cs, isNameChar e) → d.isAlpha →
    (∀ e ∈ ds, isNameChar e) → IsName (c :: cs ++ ':' :: ':' :: d :: ds)

theorem isNameChar_of_isNameStart {c : Char} (h : isNameStart c) : isNameChar c := by
  simp only [isNameStart, isNameChar, Char.isAlphanum, Bool.or_eq_true] at h ⊢
  exact h.elim (fun h => .inl (.inl h)) .inr

theorem isNameStart_of_isAlpha {c : Char} (h : c.isAlpha) : isNameStart c := by
  simp only [isNameStart, Bool.or_eq_true]
  exact .inl h

theorem toNat_lt_of_isNameChar {c : Char} (h : isNameChar c) : c.toNat < 128 := by
  simp only [isNameChar, Char.isAlphanum, Char.isAlpha, Char.isUpper, Char.isLower, Char.isDigit,
    Bool.or_eq_true, Bool.and_eq_true, decide_eq_true_eq, beq_iff_eq, UInt32.le_iff_toNat_le,
    ge_iff_le] at h
  rcases h with ((⟨-, h⟩ | ⟨-, h⟩) | ⟨-, h⟩) | rfl
  · exact Nat.lt_of_le_of_lt h (by decide)
  · exact Nat.lt_of_le_of_lt h (by decide)
  · exact Nat.lt_of_le_of_lt h (by decide)
  · decide

/-- Lower-casing keeps the kind of an ASCII character. -/
theorem toLower_ascii {c : Char} (h : c.toNat < 128) : c.toLower.toLower = c.toLower ∧
    (isNameChar c → isNameChar c.toLower) ∧ (isNameStart c → isNameStart c.toLower) ∧
    (c.isAlpha → c.toLower.isAlpha) := by
  have hall : ∀ n < 128, (Char.ofNat n).toLower.toLower = (Char.ofNat n).toLower ∧
      (isNameChar (Char.ofNat n) → isNameChar (Char.ofNat n).toLower) ∧
      (isNameStart (Char.ofNat n) → isNameStart (Char.ofNat n).toLower) ∧
      ((Char.ofNat n).isAlpha → (Char.ofNat n).toLower.isAlpha) := by decide
  have := hall c.toNat h
  rwa [Char.ofNat_toNat] at this

theorem toLower_toLower {c : Char} (h : isNameChar c) : c.toLower.toLower = c.toLower :=
  (toLower_ascii (toNat_lt_of_isNameChar h)).1

theorem isNameChar_toLower {c : Char} (h : isNameChar c) : isNameChar c.toLower :=
  (toLower_ascii (toNat_lt_of_isNameChar h)).2.1 h

theorem isNameStart_toLower {c : Char} (h : isNameStart c) : isNameStart c.toLower :=
  (toLower_ascii (toNat_lt_of_isNameChar (isNameChar_of_isNameStart h))).2.2.1 h

theorem isAlpha_toLower {c : Char} (h : c.isAlpha) : c.toLower.isAlpha :=
  (toLower_ascii
    (toNat_lt_of_isNameChar (isNameChar_of_isNameStart (isNameStart_of_isAlpha h)))).2.2.2 h

theorem forall_isNameChar_toLower {cs : List Char} (h : ∀ c ∈ cs, isNameChar c) :
    ∀ c ∈ cs.map Char.toLower, isNameChar c := by
  intro c hc
  obtain ⟨d, hd, rfl⟩ := List.mem_map.mp hc
  exact isNameChar_toLower (h d hd)

theorem lowerFrom_ascii {before cs : List Char} (h : ∀ c ∈ cs, c.toNat < 128) :
    lowerFrom before cs = cs.map Char.toLower := by
  induction cs generalizing before with
  | nil => rfl
  | cons c cs ih =>
    have hc : c.toNat < 128 := h c List.mem_cons_self
    have hsigma : c ≠ capitalSigma := by
      rintro rfl
      exact absurd hc (by decide)
    rw [lowerFrom, if_neg hsigma, lowerChar, if_pos hc, List.map_cons, List.singleton_append,
      ih fun d hd => h d (List.mem_cons_of_mem c hd)]

namespace IsName

variable {cs : List Char}

theorem exists_cons (h : IsName cs) : ∃ c rest, cs = c :: rest ∧ isNameStart c := by
  cases h with
  | simple hc _ => exact ⟨_, _, rfl, hc⟩
  | qualified hc _ _ _ => exact ⟨_, _, List.cons_append, hc⟩

theorem mem (h : IsName cs) {c : Char} (hc : c ∈ cs) : isNameChar c ∨ c = ':' := by
  cases h with
  | simple hfirst hrest =>
    rcases List.mem_cons.mp hc with rfl | hc
    · exact .inl (isNameChar_of_isNameStart hfirst)
    · exact .inl (hrest c hc)
  | qualified hfirst hrest hd hds =>
    simp only [List.cons_append, List.mem_cons, List.mem_append] at hc
    rcases hc with rfl | hc | rfl | rfl | rfl | hc
    · exact .inl (isNameChar_of_isNameStart hfirst)
    · exact .inl (hrest c hc)
    · exact .inr rfl
    · exact .inr rfl
    · exact .inl (isNameChar_of_isNameStart (isNameStart_of_isAlpha hd))
    · exact .inl (hds c hc)

theorem toNat_lt (h : IsName cs) {c : Char} (hc : c ∈ cs) : c.toNat < 128 := by
  rcases h.mem hc with hc | rfl
  · exact toNat_lt_of_isNameChar hc
  · decide

theorem toLower_toLower (h : IsName cs) :
    (cs.map Char.toLower).map Char.toLower = cs.map Char.toLower := by
  rw [List.map_map]
  refine List.map_congr_left fun c hc => ?_
  rcases h.mem hc with hc | rfl
  · exact Reckon.toLower_toLower hc
  · decide

theorem map_toLower (h : IsName cs) : IsName (cs.map Char.toLower) := by
  cases h with
  | simple hc hcs => exact simple (isNameStart_toLower hc) (forall_isNameChar_toLower hcs)
  | qualified hc hcs hd hds =>
    simp only [List.cons_append, List.map_cons, List.map_append]
    exact qualified (isNameStart_toLower hc) (forall_isNameChar_toLower hcs) (isAlpha_toLower hd)
      (forall_isNameChar_toLower hds)

theorem ofWord?_toLower (h : IsName cs) :
    Operator.ofWord? (cs.map Char.toLower) = Operator.ofWord? cs := by
  rw [Operator.ofWord?, Operator.ofWord?, h.toLower_toLower]

/-- A name is read as a whole, up to a character that continues no name. -/
theorem readWord_append (h : IsName cs) {rest : List Char}
    (hrest : ∀ c more, rest = c :: more → isNameChar c = false ∧ c ≠ ':') :
    readWord (cs ++ rest) = (cs, rest) := by
  have hends : ∀ c more, rest = c :: more → isNameChar c = false := fun c more hc => (hrest c more hc).1
  cases h with
  | @simple c cs hc hcs =>
    have hall : ∀ d ∈ c :: cs, isNameChar d := by
      intro d hd
      rcases List.mem_cons.mp hd with rfl | hd
      · exact isNameChar_of_isNameStart hc
      · exact hcs d hd
    obtain ⟨htake, hdrop⟩ := takeWhile_append_of_ends hall hends
    unfold readWord
    simp only [htake, hdrop]
    split
    · rename_i more
      exact absurd rfl (hrest ':' _ rfl).2
    · rfl
  | @qualified c cs d ds hc hcs hd hds =>
    have hall : ∀ e ∈ c :: cs, isNameChar e := by
      intro e he
      rcases List.mem_cons.mp he with rfl | he
      · exact isNameChar_of_isNameStart hc
      · exact hcs e he
    have hsecond : ∀ e ∈ d :: ds, isNameChar e := by
      intro e he
      rcases List.mem_cons.mp he with rfl | he
      · exact isNameChar_of_isNameStart (isNameStart_of_isAlpha hd)
      · exact hds e he
    obtain ⟨htake, hdrop⟩ := @takeWhile_append_of_ends isNameChar (c :: cs)
      (':' :: ':' :: (d :: ds ++ rest)) hall (by
        intro e more he
        obtain ⟨rfl, -⟩ := List.cons.inj he
        rfl)
    obtain ⟨htake', hdrop'⟩ := takeWhile_append_of_ends hsecond hends
    simp only [List.cons_append] at htake hdrop htake' hdrop'
    unfold readWord
    simp only [List.append_assoc, List.cons_append, htake, hdrop, hd, if_true, htake', hdrop']

end IsName

theorem toList_foldName {s : String} (h : IsName s.toList) :
    (foldName s).toList = s.toList.map Char.toLower := by
  rw [foldName, lowerText, lowerFrom_ascii fun c hc => h.toNat_lt hc, String.toList_ofList]

theorem isName_foldName {s : String} (h : IsName s.toList) : IsName (foldName s).toList := by
  rw [toList_foldName h]
  exact h.map_toLower

theorem foldName_foldName {s : String} (h : IsName s.toList) : foldName (foldName s) = foldName s := by
  apply String.toList_inj.mp
  rw [toList_foldName (isName_foldName h), toList_foldName h, h.toLower_toLower]

end Reckon
