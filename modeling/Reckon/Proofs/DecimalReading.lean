import Mathlib.Data.Int.Log
import Mathlib.Data.Rat.Floor
import Mathlib.Tactic.FieldSimp
import Mathlib.Tactic.Positivity
import Mathlib.Tactic.NormNum
import Mathlib.Tactic.Ring
import Reckon.Number.Decimal

/-!
The double that a decimal reads as depends on its value alone, and the shortest decimal of a double
reads as that double.

The exponent that rounding starts from is the logarithm of the fraction to base two, so it is the same
for every numerator and denominator of the fraction.
-/

namespace Reckon

namespace Binary

theorem zpow_mul_pow_toNat (e : Int) : (2 : ℚ) ^ e * 2 ^ (-e).toNat = 2 ^ e.toNat := by
  rw [← zpow_natCast, ← zpow_natCast, ← zpow_add₀ two_ne_zero]
  congr 1
  omega

theorem zpow_le_div_iff {num den : Nat} (hd : 0 < den) (e : Int) :
    (2 : ℚ) ^ e ≤ num / den ↔ den * 2 ^ e.toNat ≤ num * 2 ^ (-e).toNat := by
  have hden : (0 : ℚ) < den := by exact_mod_cast hd
  have hpow : (0 : ℚ) < 2 ^ (-e).toNat := by positivity
  rw [le_div_iff₀ hden, ← mul_le_mul_iff_left₀ hpow]
  have hclear : (2 : ℚ) ^ e * den * 2 ^ (-e).toNat = den * 2 ^ e.toNat := by
    calc (2 : ℚ) ^ e * den * 2 ^ (-e).toNat = den * (2 ^ e * 2 ^ (-e).toNat) := by ring
      _ = den * 2 ^ e.toNat := by rw [zpow_mul_pow_toNat]
  rw [hclear]
  exact_mod_cast Iff.rfl

theorem le_log_iff {num den : Nat} (hn : 0 < num) (hd : 0 < den) (e : Int) :
    e ≤ Int.log 2 (num / den : ℚ) ↔ den * 2 ^ e.toNat ≤ num * 2 ^ (-e).toNat := by
  have hpos : (0 : ℚ) < num / den := by positivity
  rw [← zpow_le_div_iff hd, ← Int.zpow_le_iff_le_log (by decide) hpos]
  rfl

theorem binaryExponent_eq {num den : Nat} (hn : 0 < num) (hd : 0 < den) :
    binaryExponent num den = Int.log 2 (num / den : ℚ) := by
  have hle := le_log_iff hn hd
  have hn₁ := Nat.log2_self_le (Nat.ne_of_gt hn)
  have hn₂ := @Nat.lt_log2_self num
  have hd₁ := Nat.log2_self_le (Nat.ne_of_gt hd)
  have hd₂ := @Nat.lt_log2_self den
  unfold binaryExponent
  generalize num.log2 = a at *
  generalize den.log2 = b at *
  have hbelow : (a : Int) - b - 1 ≤ Int.log 2 (num / den : ℚ) := by
    rw [hle]
    generalize hk : ((a : Int) - b - 1).toNat = k
    generalize hj : (-((a : Int) - b - 1)).toNat = j
    calc den * 2 ^ k ≤ 2 ^ (b + 1) * 2 ^ k := Nat.mul_le_mul_right _ (Nat.le_of_lt hd₂)
      _ = 2 ^ a * 2 ^ j := by
        rw [← Nat.pow_add, ← Nat.pow_add]
        congr 1
        omega
      _ ≤ num * 2 ^ j := Nat.mul_le_mul_right _ hn₁
  have habove : ¬(a : Int) - b + 1 ≤ Int.log 2 (num / den : ℚ) := by
    rw [hle, Nat.not_le]
    generalize hk : ((a : Int) - b + 1).toNat = k
    generalize hj : (-((a : Int) - b + 1)).toNat = j
    calc num * 2 ^ j < 2 ^ (a + 1) * 2 ^ j := Nat.mul_lt_mul_of_pos_right hn₂ (Nat.two_pow_pos j)
      _ = 2 ^ b * 2 ^ k := by
        rw [← Nat.pow_add, ← Nat.pow_add]
        congr 1
        omega
      _ ≤ den * 2 ^ k := Nat.mul_le_mul_right _ hd₁
  have hat := hle ((a : Int) - b)
  simp only [Nat.pow_eq] at hat ⊢
  split
  · rename_i h
    have := hat.mpr h
    omega
  · rename_i h
    have := mt hat.mp h
    omega

/-- Rounding looks at a fraction, not at how it is written. -/
theorem roundQuotient_mul {k : Nat} (hk : 0 < k) (num den : Nat) :
    roundQuotient (num * k) (den * k) = roundQuotient num den := by
  simp only [roundQuotient, Nat.mul_div_mul_right _ _ hk, Nat.mul_mod_mul_right]
  have hdouble : 2 * (num % den * k) = 2 * (num % den) * k := (Nat.mul_assoc ..).symm
  simp only [hdouble, Nat.mul_lt_mul_right hk, Nat.mul_right_cancel_iff hk]

theorem nearestBits_mul {k : Nat} (hk : 0 < k) {num den : Nat} (hd : 0 < den) :
    nearestBits (num * k) (den * k) = nearestBits num den := by
  rcases Nat.eq_zero_or_pos num with rfl | hn
  · simp [nearestBits]
  · have hnk := Nat.mul_pos hn hk
    have hexp : binaryExponent (num * k) (den * k) = binaryExponent num den := by
      rw [binaryExponent_eq hn hd, binaryExponent_eq hnk (Nat.mul_pos hd hk)]
      have hk' : (k : ℚ) ≠ 0 := by positivity
      push_cast
      rw [mul_div_mul_right _ _ hk']
    simp only [nearestBits, hexp, Nat.ne_of_gt hn, Nat.ne_of_gt hnk, if_false]
    rw [Nat.mul_right_comm num, Nat.mul_right_comm den, roundQuotient_mul hk]

theorem roundQuotient_exact {den : Nat} (hd : 0 < den) (n : Nat) :
    roundQuotient (n * den) den = n := by
  simp [roundQuotient, hd]

/-- A fraction of at most 53 binary digits, all of them if it is above the least doubles, is not
rounded. -/
theorem nearestBits_exact {n : Nat} {e : Int} (hn : 0 < n) (hlt : n < 2 ^ 53)
    (he : leastExponent ≤ e) (hfull : e = leastExponent ∨ 2 ^ 52 ≤ n) :
    nearestBits (n * 2 ^ e.toNat) (2 ^ (-e).toNat) =
      min (n + (e - leastExponent).toNat * unitWeight) infinityBits := by
  have hnum : 0 < n * 2 ^ e.toNat := Nat.mul_pos hn (Nat.two_pow_pos _)
  have hden : 0 < 2 ^ (-e).toNat := Nat.two_pow_pos _
  have hle := le_log_iff hnum hden
  rw [← binaryExponent_eq hnum hden] at hle
  have hscale (k : Nat) : e + k ≤ binaryExponent (n * 2 ^ e.toNat) (2 ^ (-e).toNat) ↔ 2 ^ k ≤ n := by
    rw [hle]
    have hexp : (-e).toNat + (e + k).toNat = k + (e.toNat + (-(e + k)).toNat) := by omega
    rw [← Nat.pow_add, hexp, Nat.pow_add 2 k, Nat.mul_assoc n, ← Nat.pow_add 2 e.toNat]
    exact Nat.mul_le_mul_right_iff (Nat.two_pow_pos _)
  have h₅₂ := hscale 52
  have h₅₃ := hscale 53
  have hq : max (binaryExponent (n * 2 ^ e.toNat) (2 ^ (-e).toNat) - 52) leastExponent = e := by
    omega
  simp only [nearestBits, hq, Nat.ne_of_gt hnum, if_false, Nat.pow_eq]
  rw [Nat.mul_assoc, Nat.mul_comm (2 ^ e.toNat), roundQuotient_exact]
  exact Nat.mul_pos hden (Nat.two_pow_pos _)

/-- A fraction that is some double exactly is read as that one. -/
theorem nearestBits_ofMagnitude {m : Nat} (hm : 0 < m) (hfin : m < infinityBits) (negative : Bool) :
    nearestBits (ofMagnitude negative m).numerator (ofMagnitude negative m).denominator = m := by
  have hunit : unitWeight = 2 ^ 52 := rfl
  unfold ofMagnitude
  simp only [hunit]
  split
  · rename_i h
    have hn : m % 2 ^ 52 = m := by omega
    simp only [numerator, denominator, Nat.pow_eq, hn]
    rw [nearestBits_exact hm (by omega) (Int.le_refl _) (.inl rfl), Int.sub_self]
    simpa using Nat.le_of_lt hfin
  · rename_i h
    have hlt := Nat.mod_lt m (Nat.two_pow_pos 52)
    simp only [numerator, denominator, Nat.pow_eq]
    have he : ((m / 2 ^ 52 : Nat) : Int) - 1 + leastExponent - leastExponent =
        (m / 2 ^ 52 - 1 : Nat) := by omega
    rw [nearestBits_exact (by omega) (by omega) (by omega) (.inr (by omega)), he,
      Int.toNat_natCast, hunit, Nat.min_eq_left]
    · omega
    · omega

end Binary

namespace Decimal

theorem length_digits_mul_ten {n : Nat} (hn : 0 < n) :
    (digits (n * 10)).length = (digits n).length + 1 := by
  have h := @Nat.toDigits_append_toDigits 10 n 0 (by decide) hn (by decide)
  rw [Nat.add_zero, Nat.mul_comm] at h
  rw [digits, ← h, List.length_append]
  rfl

theorem toBits_mul_ten (n : Nat) (e : Int) :
    (Decimal.mk (n * 10) e).toBits = (Decimal.mk n (e + 1)).toBits := by
  rcases Nat.eq_zero_or_pos n with rfl | hn
  · simp [toBits]
  · have htop : ((digits (n * 10)).length : Int) + e = (digits n).length + (e + 1) := by
      rw [length_digits_mul_ten hn]
      omega
    simp only [toBits, htop, Nat.ne_of_gt hn, Nat.ne_of_gt (show 0 < n * 10 by omega), if_false,
      Nat.pow_eq]
    have hbits : Binary.nearestBits (n * 10 * 10 ^ e.toNat) (10 ^ (-e).toNat) =
        Binary.nearestBits (n * 10 ^ (e + 1).toNat) (10 ^ (-(e + 1)).toNat) := by
      by_cases he : e < 0
      · obtain ⟨k, hk⟩ : ∃ k, (-e).toNat = k + 1 := ⟨(-e).toNat - 1, by omega⟩
        have hk' : (-(e + 1)).toNat = k := by omega
        have h₀ : e.toNat = 0 := by omega
        have h₁ : (e + 1).toNat = 0 := by omega
        rw [hk, hk', h₀, h₁, Nat.pow_succ]
        simpa using Binary.nearestBits_mul (k := 10) (by decide) (Nat.pow_pos (by decide))
      · have h₀ : (-e).toNat = 0 := by omega
        have h₁ : (-(e + 1)).toNat = 0 := by omega
        have h₂ : (e + 1).toNat = e.toNat + 1 := by omega
        rw [h₀, h₁, h₂, Nat.pow_succ]
        congr 1
        ring
    rw [hbits]

theorem toBits_mul_pow (n k : Nat) (e : Int) :
    (Decimal.mk (n * 10 ^ k) e).toBits = (Decimal.mk n (e + k)).toBits := by
  induction k generalizing e with
  | zero => simp
  | succ k ih =>
    rw [Nat.pow_succ, ← Nat.mul_assoc, toBits_mul_ten, ih]
    congr 2
    push_cast
    ring

theorem toBits_strip (fuel : Nat) (d : Decimal) : (strip fuel d).toBits = d.toBits := by
  induction fuel generalizing d with
  | zero => rfl
  | succ fuel ih =>
    rw [strip]
    split
    · rename_i h
      have hten : d.coefficient / 10 * 10 = d.coefficient := by omega
      rw [ih, ← toBits_mul_ten, hten]
    · rfl

theorem toBits_normalize (d : Decimal) : d.normalize.toBits = d.toBits := toBits_strip _ d

/-! The shortest decimal. -/

theorem toBits_of_gridPoint? {tie : Tie} {bits num den : Nat} {j : Int} {d : Decimal}
    (h : gridPoint? tie bits num den j = some d) : d.toBits = bits := by
  simp only [gridPoint?] at h
  split at h
  · rename_i hb ha
    have hd := Option.some.inj h
    split at hd
    · exact hd ▸ beq_iff_eq.mp ha
    · exact hd ▸ beq_iff_eq.mp hb
  · rename_i hb _
    exact Option.some.inj h ▸ beq_iff_eq.mp hb
  · rename_i _ ha
    exact Option.some.inj h ▸ beq_iff_eq.mp ha
  · simp at h

theorem length_digits_le {n k : Nat} (hk : 0 < k) (h : n < 10 ^ k) : (digits n).length ≤ k :=
  (Nat.length_toDigits_le_iff (by decide) hk).mpr h

theorem lt_pow_length_digits (n : Nat) : n < 10 ^ (digits n).length :=
  (Nat.length_toDigits_le_iff (by decide) Nat.length_toDigits_pos).mp (Nat.le_refl _)

/-- All digits of a binary fraction are within the range in which decimals are rounded. -/
theorem toBits_exact {b : Binary} (hpos : 0 < b.significand) (hlt : b.significand < 2 ^ 53)
    (hlow : Binary.leastExponent ≤ b.exponent) (hhigh : b.exponent ≤ 971) :
    (exact b).toBits = Binary.nearestBits b.numerator b.denominator := by
  simp only [Binary.leastExponent] at hlow
  simp only [exact, Binary.numerator, Binary.denominator, Nat.pow_eq]
  generalize hp : (-b.exponent).toNat = p
  have hnum : 0 < b.significand * 2 ^ b.exponent.toNat := Nat.mul_pos hpos (Nat.two_pow_pos _)
  have hbound : b.significand * 2 ^ b.exponent.toNat < 2 ^ 53 * 2 ^ 971 :=
    Nat.mul_lt_mul_of_lt_of_le hlt (Nat.pow_le_pow_right (by decide) (by omega)) (Nat.two_pow_pos _)
  generalize b.significand * 2 ^ b.exponent.toNat = num at hnum hbound
  have hten : 10 ^ p = 2 ^ p * 5 ^ p := Nat.mul_pow 2 5 p
  have hcoefficient : 0 < num * 5 ^ p := Nat.mul_pos hnum (Nat.pow_pos (by decide))
  have hupper : (digits (num * 5 ^ p)).length ≤ 310 + p := by
    apply length_digits_le (by omega)
    calc num * 5 ^ p < 10 ^ 310 * 5 ^ p := by
          exact Nat.mul_lt_mul_of_pos_right (Nat.lt_trans hbound (by decide +kernel))
            (Nat.pow_pos (by decide))
      _ ≤ 10 ^ 310 * 10 ^ p := Nat.mul_le_mul_left _ (Nat.pow_le_pow_left (by decide) p)
      _ = 10 ^ (310 + p) := (Nat.pow_add ..).symm
  have hlower : p ≤ (digits (num * 5 ^ p)).length + 330 := by
    refine Decidable.byContradiction fun hlt => ?_
    have hlen := lt_pow_length_digits (num * 5 ^ p)
    generalize (digits (num * 5 ^ p)).length = len at hlt hlen
    have hchain : 10 ^ len * 10 ^ 331 < 10 ^ len * 2 ^ 1074 := by
      calc 10 ^ len * 10 ^ 331 = 10 ^ (len + 331) := (Nat.pow_add ..).symm
        _ ≤ 10 ^ p := Nat.pow_le_pow_right (by decide) (by omega)
        _ = 2 ^ p * 5 ^ p := hten
        _ ≤ 2 ^ p * (num * 5 ^ p) := Nat.mul_le_mul_left _ (Nat.le_mul_of_pos_left _ hnum)
        _ < 2 ^ p * 10 ^ len := Nat.mul_lt_mul_of_pos_left hlen (Nat.two_pow_pos p)
        _ ≤ 2 ^ 1074 * 10 ^ len := by
          exact Nat.mul_le_mul_right _ (Nat.pow_le_pow_right (by decide) (by omega))
        _ = 10 ^ len * 2 ^ 1074 := Nat.mul_comm ..
    exact absurd (Nat.lt_of_mul_lt_mul_left hchain) (by decide +kernel)
  have hp₀ : (-(p : Int)).toNat = 0 := by omega
  have hp₁ : (- -(p : Int)).toNat = p := by omega
  simp only [toBits, hp₀, hp₁, Nat.ne_of_gt hcoefficient, if_false, Nat.pow_eq]
  rw [if_neg (by omega), if_neg (by omega), Nat.pow_zero, Nat.mul_one, hten]
  exact Binary.nearestBits_mul (Nat.pow_pos (by decide)) (Nat.two_pow_pos p)

theorem toBits_shortest (tie : Tie) {m : Nat} (hm : 0 < m) (hfin : m < Binary.infinityBits) :
    (shortest tie m).toBits = m := by
  unfold shortest
  simp only [toBits_normalize]
  cases hfound : (List.range 17).findSome? _ with
  | some d =>
    obtain ⟨i, -, hi⟩ := List.exists_of_findSome?_eq_some hfound
    exact toBits_of_gridPoint? hi
  | none =>
    have hunit : Binary.unitWeight = 2 ^ 52 := rfl
    have hmax : Binary.infinityBits = 2047 * 2 ^ 52 := rfl
    rw [Option.getD_none, toBits_exact, Binary.nearestBits_ofMagnitude hm hfin]
    all_goals
      simp only [Binary.ofMagnitude, hunit, Binary.leastExponent]
      split <;> simp only <;> omega

end Decimal

end Reckon
