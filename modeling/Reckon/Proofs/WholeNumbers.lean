import Reckon.Number.Text
import Reckon.Proofs.DecimalReading
import Reckon.Proofs.FloatOrder

/-!
Whole numbers are written as integers.

Whole numbers below `2 ^ 53` are doubles, so two of them that are read as one double are equal. On a grid
of powers of ten only a multiple reads back as a whole number, so the shortest decimal of a whole number
of at most fifteen digits is that number, and its text is that of the integer.
-/

namespace Reckon

namespace Binary

/-- The bits of a whole number, moved up to the place of the hidden bit. -/
theorem significand_bounds {n : Nat} (hn : 0 < n) (hlt : n < 2 ^ 53) :
    2 ^ 52 ≤ n * 2 ^ (52 - n.log2) ∧ n * 2 ^ (52 - n.log2) < 2 ^ 53 := by
  have hlog : n.log2 < 53 := (Nat.log2_lt (Nat.ne_of_gt hn)).mpr hlt
  constructor
  · calc 2 ^ 52 = 2 ^ n.log2 * 2 ^ (52 - n.log2) := by
          rw [← Nat.pow_add]
          congr 1
          omega
      _ ≤ n * 2 ^ (52 - n.log2) := Nat.mul_le_mul_right _ (Nat.log2_self_le (Nat.ne_of_gt hn))
  · calc n * 2 ^ (52 - n.log2) < 2 ^ (n.log2 + 1) * 2 ^ (52 - n.log2) :=
          Nat.mul_lt_mul_of_pos_right Nat.lt_log2_self (Nat.two_pow_pos _)
      _ = 2 ^ 53 := by
          rw [← Nat.pow_add]
          congr 1
          omega

theorem nearestBits_whole {n : Nat} (hn : 0 < n) (hlt : n < 2 ^ 53) :
    nearestBits n 1 = n * 2 ^ (52 - n.log2) + (n.log2 + 1022) * 2 ^ 52 := by
  have hlog : n.log2 < 53 := (Nat.log2_lt (Nat.ne_of_gt hn)).mpr hlt
  have hhigh := (significand_bounds hn hlt).2
  have hmax : n * 2 ^ (52 - n.log2) + (n.log2 + 1022) * 2 ^ 52 ≤ infinityBits := by
    show _ ≤ 2047 * 2 ^ 52
    omega
  have hlow := (significand_bounds hn hlt).1
  have hexact := nearestBits_exact (n := n * 2 ^ (52 - n.log2)) (e := (n.log2 : Int) - 52)
    (by omega) hhigh (by simp only [leastExponent]; omega) (.inr hlow)
  have h₀ : ((n.log2 : Int) - 52).toNat = 0 := by omega
  have h₁ : (-((n.log2 : Int) - 52)).toNat = 52 - n.log2 := by omega
  have h₂ : ((n.log2 : Int) - 52 - leastExponent).toNat = n.log2 + 1022 := by
    simp only [leastExponent]
    omega
  have hunit : unitWeight = 2 ^ 52 := rfl
  have hscale := @nearestBits_mul (2 ^ (52 - n.log2)) (Nat.two_pow_pos _) n 1 (by decide)
  rw [h₀, h₁, h₂, Nat.pow_zero, Nat.mul_one] at hexact
  rw [Nat.one_mul] at hscale
  rw [← hscale, hexact, hunit]
  exact Nat.min_eq_left hmax

/-- Whole numbers below `2 ^ 53` that are read as one double are equal. -/
theorem nearestBits_whole_inj {n k : Nat} (hn : 0 < n) (hn' : n < 2 ^ 53) (hk : 0 < k)
    (hk' : k < 2 ^ 53) (h : nearestBits n 1 = nearestBits k 1) : n = k := by
  obtain ⟨hlow, hhigh⟩ := significand_bounds hn hn'
  obtain ⟨hlow', hhigh'⟩ := significand_bounds hk hk'
  rw [nearestBits_whole hn hn', nearestBits_whole hk hk'] at h
  have hlog : n.log2 = k.log2 := by omega
  rw [hlog, Nat.add_right_cancel_iff] at h
  exact Nat.mul_right_cancel (Nat.two_pow_pos _) h

end Binary

namespace Decimal

/-! On a grid of whole numbers. -/

theorem nearestBits_of_toBits {c j m : Nat} (hm : 0 < m) (hfin : m < Binary.infinityBits)
    (h : (Decimal.mk c j).toBits = m) : 0 < c * 10 ^ j ∧ Binary.nearestBits (c * 10 ^ j) 1 = m := by
  unfold toBits at h
  simp only at h
  split at h
  · omega
  · rename_i hc
    split at h
    · omega
    · split at h
      · omega
      · have h₀ : (-(j : Int)).toNat = 0 := by omega
        rw [h₀, Int.toNat_natCast] at h
        exact ⟨Nat.mul_pos (Nat.pos_of_ne_zero hc) (Nat.pow_pos (by decide)), h⟩

/-- A number that reads back on a grid of whole numbers is on it. -/
theorem gridPoint?_whole {tie : Tie} {m num den v j : Nat} {d : Decimal} (hm : 0 < m)
    (hfin : m < Binary.infinityBits) (hden : 0 < den) (hnum : num = v * den)
    (hv : v < 10 ^ 15) (hread : Binary.nearestBits v 1 = m) (hj : 10 ^ j ≤ v)
    (h : gridPoint? tie m num den j = some d) : d.exponent = j ∧ d.coefficient * 10 ^ j = v := by
  have hd := toBits_of_gridPoint? h
  have hquotient : num * Nat.pow 10 (-(j : Int)).toNat / (den * Nat.pow 10 (j : Int).toNat) =
      v / 10 ^ j := by
    have h₀ : (-(j : Int)).toNat = 0 := by omega
    rw [h₀, Int.toNat_natCast, hnum]
    show v * den * 1 / (den * 10 ^ j) = v / 10 ^ j
    rw [Nat.mul_one, Nat.mul_comm v, Nat.mul_div_mul_left _ _ hden]
  have hpoint : d = ⟨v / 10 ^ j, j⟩ ∨ d = ⟨v / 10 ^ j + 1, j⟩ := by
    simp only [gridPoint?, hquotient] at h
    split at h <;> grind
  obtain ⟨c, hd', hc⟩ : ∃ c, d = ⟨c, j⟩ ∧ c * 10 ^ j ≤ v + 10 ^ j := by
    have hle : v / 10 ^ j * 10 ^ j ≤ v := Nat.div_mul_le_self v (10 ^ j)
    rcases hpoint with rfl | rfl
    · exact ⟨_, rfl, Nat.le_add_right_of_le hle⟩
    · exact ⟨_, rfl, by simpa [Nat.add_mul] using hle⟩
  subst hd'
  obtain ⟨hpos, hbits⟩ := nearestBits_of_toBits hm hfin hd
  have hv₀ : 0 < v := Nat.lt_of_lt_of_le (Nat.pow_pos (by decide)) hj
  refine ⟨rfl, Binary.nearestBits_whole_inj hpos ?_ hv₀ (by omega) (hbits.trans hread.symm)⟩
  generalize c * 10 ^ j = n at hc ⊢
  generalize 10 ^ j = p at hc hj
  omega

/-! The layout of a whole decimal. -/

theorem digits_mul_ten {n : Nat} (hn : 0 < n) : digits (n * 10) = digits n ++ ['0'] := by
  have h := @Nat.toDigits_append_toDigits 10 n 0 (by decide) hn (by decide)
  rw [Nat.add_zero, Nat.mul_comm] at h
  exact h.symm

theorem digits_mul_pow {n : Nat} (hn : 0 < n) (k : Nat) :
    digits (n * 10 ^ k) = digits n ++ List.replicate k '0' := by
  induction k with
  | zero => simp
  | succ k ih =>
    rw [Nat.pow_succ, ← Nat.mul_assoc, digits_mul_ten (Nat.mul_pos hn (Nat.pow_pos (by decide))), ih,
      List.append_assoc, List.replicate_succ']

/-- The decimal is the whole number. -/
def IsWhole (d : Decimal) (v : Nat) : Prop := ∃ j : Nat, d.exponent = j ∧ d.coefficient * 10 ^ j = v

theorem IsWhole.strip {d : Decimal} {v : Nat} (h : d.IsWhole v) (fuel : Nat) :
    (strip fuel d).IsWhole v := by
  induction fuel generalizing d with
  | zero => exact h
  | succ fuel ih =>
    rw [Decimal.strip]
    split
    · rename_i hten
      obtain ⟨j, hj, hv⟩ := h
      refine ih ⟨j + 1, by simp [hj], ?_⟩
      rw [Nat.pow_succ, Nat.mul_comm (10 ^ j), ← Nat.mul_assoc,
        Nat.div_mul_cancel (Nat.dvd_of_mod_eq_zero hten.2), hv]
    · exact h

theorem IsWhole.positional_eq {d : Decimal} {v : Nat} (h : d.IsWhole v) (hv : 0 < v) :
    d.positional = digits v := by
  obtain ⟨j, hj, rfl⟩ := h
  rw [positional, if_pos (by omega), hj, Int.toNat_natCast,
    digits_mul_pow (Nat.pos_of_mul_pos_right hv)]

/-- A whole number lies on the grid of units. -/
theorem isSome_gridPoint?_units {tie : Tie} {m den v : Nat} (hden : 0 < den) (hv₀ : 0 < v)
    (hv : v < 10 ^ 15) (hread : Binary.nearestBits v 1 = m) :
    (gridPoint? tie m (v * den) den (0 : Nat)).isSome := by
  have hlength : (digits v).length ≤ 15 := length_digits_le (by decide) hv
  have hbelow : (Decimal.mk v (0 : Nat)).toBits = m := by
    rw [toBits, if_neg (Nat.ne_of_gt hv₀)]
    simp only
    rw [if_neg (by omega), if_neg (by omega)]
    simpa using hread
  have hquotient : v * den * Nat.pow 10 (-((0 : Nat) : Int)).toNat /
      (den * Nat.pow 10 ((0 : Nat) : Int).toNat) = v := by
    show v * den * 1 / (den * 1) = v
    rw [Nat.mul_one, Nat.mul_one, Nat.mul_div_cancel _ hden]
  simp only [gridPoint?, hquotient, hbelow, BEq.rfl]
  split <;> simp_all

/-- The first number that is mapped to something is at most any other. -/
theorem exists_le_findSome?_range {β : Type} {f : Nat → Option β} {n i : Nat} (hi : i < n)
    (h : (f i).isSome) : ∃ k ≤ i, ∃ b, f k = some b ∧ (List.range n).findSome? f = some b := by
  cases hfound : (List.range n).findSome? f with
  | none =>
    rw [List.findSome?_eq_none_iff.mp hfound i (List.mem_range.mpr hi)] at h
    contradiction
  | some b =>
    obtain ⟨before, k, after, hsplit, hk, hnone⟩ := List.findSome?_eq_some_iff.mp hfound
    refine ⟨k, Nat.le_of_not_lt fun hlt => ?_, b, hk, rfl⟩
    have hmem : i ∈ before ++ k :: after := hsplit ▸ List.mem_range.mpr hi
    have hsorted : (before ++ k :: after).Pairwise (· < ·) := hsplit ▸ List.pairwise_lt_range
    have hafter := List.pairwise_cons.mp (List.pairwise_append.mp hsorted).2.1
    rcases List.mem_append.mp hmem with hmem | hmem
    · rw [hnone i hmem] at h
      contradiction
    · rcases List.mem_cons.mp hmem with rfl | hmem
      · exact Nat.lt_irrefl _ hlt
      · exact Nat.lt_asymm hlt (hafter.1 i hmem)

theorem pow_length_digits_le {n : Nat} (hn : 0 < n) : 10 ^ ((digits n).length - 1) ≤ n := by
  refine Nat.le_of_not_lt fun hlt => ?_
  have hpos : 0 < (digits n).length := Nat.length_toDigits_pos
  rcases Nat.eq_zero_or_pos ((digits n).length - 1) with h | h
  · rw [h] at hlt
    omega
  · have := length_digits_le h hlt
    omega

/-- The shortest decimal of a whole number is that number. The grids are tried down to that of the units
at most, on which the number itself lies. -/
theorem isWhole_shortest (tie : Tie) {m v : Nat} (hm : 0 < m) (hfin : m < Binary.infinityBits)
    (hv : v < 10 ^ 15)
    (hnum : (Binary.ofMagnitude false m).numerator = v * (Binary.ofMagnitude false m).denominator) :
    0 < v ∧ (shortest tie m).IsWhole v := by
  have hden : 0 < (Binary.ofMagnitude false m).denominator := Nat.two_pow_pos _
  have hread : Binary.nearestBits v 1 = m := by
    have hscale := @Binary.nearestBits_mul _ hden v 1 (by decide)
    rw [Nat.one_mul, ← hnum, Binary.nearestBits_ofMagnitude hm hfin] at hscale
    exact hscale.symm
  have hv₀ : 0 < v := by
    refine Nat.pos_of_ne_zero fun h => ?_
    rw [h] at hread
    exact Nat.ne_of_gt hm hread.symm
  have hk : decimalExponent (Binary.ofMagnitude false m).numerator
      (Binary.ofMagnitude false m).denominator = (digits v).length := by
    rw [decimalExponent, hnum, if_pos (Nat.le_mul_of_pos_left _ hv₀), Nat.mul_div_cancel _ hden]
  have hlength : (digits v).length ≤ 15 := length_digits_le (by decide) hv
  have hlength₀ : 0 < (digits v).length := Nat.length_toDigits_pos
  have hunits : (gridPoint? tie m (Binary.ofMagnitude false m).numerator
      (Binary.ofMagnitude false m).denominator (0 : Nat)).isSome := by
    rw [hnum]
    exact isSome_gridPoint?_units hden hv₀ hv hread
  have hlast : ((digits v).length : Int) - 1 - ((digits v).length - 1 : Nat) = (0 : Nat) := by omega
  obtain ⟨i, hi, d, hd, hfound⟩ := @exists_le_findSome?_range _
    (fun i => gridPoint? tie m (Binary.ofMagnitude false m).numerator
      (Binary.ofMagnitude false m).denominator ((digits v).length - 1 - (i : Nat)))
    17 ((digits v).length - 1) (by omega) (hlast ▸ hunits)
  have hj : ((digits v).length : Int) - 1 - i = ((digits v).length - 1 - i : Nat) := by omega
  rw [hj] at hd
  have hpow : 10 ^ ((digits v).length - 1 - i) ≤ v :=
    (Nat.pow_le_pow_right (by decide) (Nat.sub_le ..)).trans (pow_length_digits_le hv₀)
  refine ⟨hv₀, ?_⟩
  unfold shortest
  simp only [hk, hfound, Option.getD_some]
  exact IsWhole.strip ⟨_, gridPoint?_whole hm hfin hden hnum hv hread hpow hd⟩ _

end Decimal

/-! The two forms of a number. -/

theorem Binary.fraction_ofMagnitude (negative : Bool) (m : Nat) :
    (ofMagnitude negative m).numerator = (ofMagnitude false m).numerator ∧
      (ofMagnitude negative m).denominator = (ofMagnitude false m).denominator := by
  unfold ofMagnitude
  simp only
  split <;> exact ⟨rfl, rfl⟩

theorem integerText_natAbs (negative : Bool) {v : Nat} (hv : 0 < v) :
    integerText (if negative then -(v : Int) else v) =
      if negative then '-' :: Decimal.digits v else Decimal.digits v := by
  cases negative with
  | false =>
    rw [if_neg Bool.false_ne_true, if_neg Bool.false_ne_true, integerText, if_neg (by omega)]
    rfl
  | true =>
    rw [if_pos rfl, if_pos rfl, integerText, if_pos (by omega), Int.natAbs_neg]
    rfl

section Forms

variable {x : Float}

theorem isShortWhole_of_zero (h : (x == 0) = true) : isShortWhole x ∧ toInteger x = 0 := by
  have hm := (beq_zero_iff_magnitude x).mp h
  have hf : x.isFinite := (isFinite_iff_magnitude x).mpr (hm ▸ by decide +kernel)
  rw [isShortWhole, toInteger, ofFloat?_of_isFinite hf, hm]
  simp only
  generalize decide (Binary.signWeight ≤ x.toBits.toNat) = negative
  cases negative <;> decide +kernel

/-- An integer of fifteen digits is one of 64 bits. -/
theorem clamp_of_short {v : Nat} (hv : v < 10 ^ 15) {n : Int} (hn : n = v ∨ n = -v) :
    max leastInteger (min n greatestInteger) = n := by
  have hleast : leastInteger = -2 ^ 63 := rfl
  have hgreatest : greatestInteger = 2 ^ 63 - 1 := rfl
  omega

/-- The integer that a double is, and its pattern. -/
theorem toInteger_of_isShortWhole (h : isShortWhole x) :
    x.isFinite ∧ ∃ v : Nat, v < 10 ^ 15 ∧
      toInteger x = (if Binary.signWeight ≤ x.toBits.toNat then -(v : Int) else v) ∧
      (Binary.ofMagnitude false (x.toBits.toNat % Binary.signWeight)).numerator =
        v * (Binary.ofMagnitude false (x.toBits.toNat % Binary.signWeight)).denominator := by
  by_cases hf : x.isFinite
  · obtain ⟨hnumerator, hdenominator⟩ := Binary.fraction_ofMagnitude
      (Binary.signWeight ≤ x.toBits.toNat) (x.toBits.toNat % Binary.signWeight)
    simp only [isShortWhole, ofFloat?_of_isFinite hf, Bool.and_eq_true, beq_iff_eq,
      decide_eq_true_eq, Binary.wholePart, hnumerator, hdenominator] at h
    obtain ⟨hmod, hlt⟩ := h
    refine ⟨hf, _, hlt, ?_, (Nat.div_mul_cancel (Nat.dvd_of_mod_eq_zero hmod)).symm⟩
    simp only [toInteger, ofFloat?_of_isFinite hf, Binary.negative_ofMagnitude, decide_eq_true_eq,
      Binary.wholePart, hnumerator, hdenominator]
    refine clamp_of_short hlt ?_
    split
    · exact .inr rfl
    · exact .inl rfl
  · rw [isShortWhole, ofFloat?_of_not_isFinite hf] at h
    contradiction

/-- The switch between the two forms cannot be seen: a small integer is written as its shortest decimal
would be, except that there is one zero. -/
theorem numberText_eq (x : Float) : numberText x = if x == 0 then ['0'] else plainText x := by
  rw [numberText]
  by_cases hzero : (x == 0) = true
  · obtain ⟨hwhole, hinteger⟩ := isShortWhole_of_zero hzero
    rw [if_pos hwhole, hinteger, if_pos hzero]
    rfl
  · rw [if_neg hzero]
    split
    · rename_i hwhole
      obtain ⟨hf, v, hv, hinteger, hnum⟩ := toInteger_of_isShortWhole hwhole
      have hm := Nat.pos_of_ne_zero (mt (beq_zero_iff_magnitude x).mpr hzero)
      obtain ⟨hv₀, hshortest⟩ :=
        Decimal.isWhole_shortest .up hm ((isFinite_iff_magnitude x).mp hf) hv hnum
      have hdigits := hshortest.positional_eq hv₀
      have htext := integerText_natAbs (Binary.signWeight ≤ x.toBits.toNat) hv₀
      simp only [decide_eq_true_eq] at htext
      rw [hinteger, htext, plainText, isNaN_of_isFinite hf, isInf_of_isFinite hf,
        if_neg Bool.false_ne_true, if_neg Bool.false_ne_true, if_neg hzero, finiteText, hdigits]
    · rfl

/-- The sign of a number and the digits of its magnitude. -/
theorem numberText_of_isFinite (hf : x.isFinite) (hzero : ¬(x == 0) = true) :
    numberText x = (if Binary.signWeight ≤ x.toBits.toNat then ['-'] else []) ++
      (Decimal.shortest .up (x.toBits.toNat % Binary.signWeight)).positional := by
  rw [numberText_eq, if_neg hzero, plainText, isNaN_of_isFinite hf, isInf_of_isFinite hf,
    if_neg Bool.false_ne_true, if_neg Bool.false_ne_true, if_neg hzero, finiteText]
  split <;> rfl

end Forms

end Reckon
