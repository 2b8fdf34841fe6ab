import Reckon.Number.Arithmetic
import Reckon.Proofs.FloatSigns

/-!
The sign bit of a double, and what it says about the order to zero.

A finite double is below zero just if it has the sign bit and is no zero. So a double that is not below
zero never becomes a negative integer, and the negation of a finite double only turns the sign bit.
-/

namespace Reckon

open Float.Model Float.Model.UnpackedFloat

theorem toNat_sign (b : Pattern64) : (unpackSign b).toNat = b.toNat / 2 ^ 63 % 2 := by
  simp [unpackSign, Nat.shiftRight_eq_div_pow]

theorem ofBitVec_unpackSign (x : Float) :
    Sign.ofBitVec (@unpackSign Format.binary64 x.toBits.toBitVec) =
      if Binary.signWeight ≤ x.toBits.toNat then .negative else .positive := by
  have hx : x.toBits.toNat < 2 ^ 64 := x.toBits.toNat_lt
  have hzero : @unpackSign Format.binary64 x.toBits.toBitVec = 0#1 ↔
      ¬Binary.signWeight ≤ x.toBits.toNat := by
    rw [← BitVec.toNat_inj, toNat_sign]
    show x.toBits.toNat / 2 ^ 63 % 2 = 0 ↔ ¬2 ^ 63 ≤ x.toBits.toNat
    omega
  rw [Sign.ofBitVec]
  simp only [hzero, ite_not]

theorem sign_of_unpack {b : Pattern64} {s : Sign} {m : Nat} {e : Int} {hm : 0 < m}
    (h : unpack Format.binary64 b = .finite s m e hm) : s = Sign.ofBitVec (unpackSign b) := by
  unfold UnpackedFloat.unpack at h
  simp only at h
  split at h
  · split at h <;> cases h
  · split at h
    · split at h <;> cases h
      rfl
    · cases h
      rfl

section Doubles

variable {x : Float}

/-- A finite double with the sign bit is below zero, unless it is a zero. -/
theorem lt_zero_of_negative (hf : x.isFinite) (hzero : ¬(x == 0) = true)
    (hs : Binary.signWeight ≤ x.toBits.toNat) : x < 0 := by
  have hlt : x < 0 ↔ x.toModel.unpack.lt (.zero .positive) := decide_eq_true_iff
  rw [hlt]
  revert hf hzero
  show x.toModel.unpack.isFinite → ¬x.toModel.unpack.beq (.zero .positive) → _
  cases hu : x.toModel.unpack with
  | notANumber | infinity s => simp [UnpackedFloat.isFinite]
  | zero s => simp [UnpackedFloat.beq, UnpackedFloat.compare]
  | finite s m e hm =>
    have hsign := sign_of_unpack hu
    rw [show x.toModel.toBits = x.toBits from rfl, ofBitVec_unpackSign, if_pos hs] at hsign
    subst hsign
    intro _ _
    rfl

/-- What the value of a finite double is made of. -/
theorem ofFloat?_of_isFinite (hf : x.isFinite) :
    Binary.ofFloat? x = some (.ofMagnitude (Binary.signWeight ≤ x.toBits.toNat)
      (x.toBits.toNat % Binary.signWeight)) :=
  if_pos ((isFinite_iff_magnitude x).mp hf)

theorem ofFloat?_of_not_isFinite (hf : ¬x.isFinite) : Binary.ofFloat? x = none :=
  if_neg (mt (isFinite_iff_magnitude x).mpr hf)

theorem Binary.negative_ofMagnitude (negative : Bool) (magnitude : Nat) :
    (ofMagnitude negative magnitude).negative = negative := by
  unfold ofMagnitude
  simp only
  split <;> rfl

theorem Binary.wholePart_zero (negative : Bool) : (ofMagnitude negative 0).wholePart = 0 := by
  cases negative <;> decide +kernel

/-- What is not below zero becomes an integer that is not. -/
theorem toInteger_nonneg (h : ¬x < 0) : 0 ≤ toInteger x := by
  have hmin : leastInteger ≤ 0 := by decide
  have hmax : 0 ≤ greatestInteger := by decide
  unfold toInteger
  by_cases hf : x.isFinite
  · rw [ofFloat?_of_isFinite hf]
    simp only [Binary.negative_ofMagnitude, decide_eq_true_eq]
    split
    · rename_i hs
      -- The sign bit of what is not below zero is that of a zero.
      have hzero : (x == 0) = true :=
        Decidable.byContradiction fun hne => h (lt_zero_of_negative hf hne hs)
      rw [(beq_zero_iff_magnitude x).mp hzero, Binary.wholePart_zero]
      omega
    · omega
  · rw [ofFloat?_of_not_isFinite hf]
    simp only [if_neg h]
    split <;> omega

theorem beq_self_of_isFinite (hf : x.isFinite) : (x == x) = true := by
  revert hf
  show x.toModel.unpack.isFinite → x.toModel.unpack.beq x.toModel.unpack = true
  cases x.toModel.unpack with
  | notANumber | infinity s => simp [UnpackedFloat.isFinite]
  | zero s => simp [UnpackedFloat.beq, UnpackedFloat.compare]
  | finite s m e hm =>
    cases s <;> simp [UnpackedFloat.beq, UnpackedFloat.compare, Ordering.then, Std.ReflCmp.compare_self]

end Doubles

theorem toNat_neg_sign (s : BitVec 1) : (-Sign.ofBitVec s).toBitVec.toNat = 1 - s.toNat := by
  obtain rfl | rfl : s = 0#1 ∨ s = 1#1 := by
    have hlt := s.isLt
    have h : s.toNat = 0 ∨ s.toNat = 1 := by omega
    exact h.imp BitVec.eq_of_toNat_eq BitVec.eq_of_toNat_eq
  · rfl
  · rfl

theorem toNat_flipSign (b : Pattern64) : (flipSign b).toNat = (b.toNat + 2 ^ 63) % 2 ^ 64 := by
  have hb : b.toNat < 2 ^ 64 := b.isLt
  rw [flipSign, packComponents]
  simp only [BitVec.toNat_append, toNat_exponent, toNat_fraction, toNat_neg_sign, toNat_sign]
  rw [← Nat.shiftLeft_add_eq_or_of_lt (by omega), ← Nat.shiftLeft_add_eq_or_of_lt (by omega)]
  simp only [Nat.shiftLeft_eq]
  omega

theorem unpack_ofBits {m : Nat} (hm : m ≤ Binary.infinityBits) :
    (Float.ofBits (UInt64.ofNat m)).toModel.unpack =
      unpack Format.binary64 (UInt64.ofNat m).toBitVec := by
  have h : (Float.ofBits (UInt64.ofNat m)).toBits = UInt64.ofNat m := by
    apply UInt64.toNat_inj.mp
    rw [toBits_ofBits hm]
    exact (Nat.mod_eq_of_lt (Nat.lt_of_le_of_lt hm (by decide +kernel))).symm
  exact congrArg (fun u : UInt64 => unpack Format.binary64 u.toBitVec) h

/-- The negation of a double without the sign bit is the one with it. -/
theorem neg_floatOf {m : Nat} (hm : m ≤ Binary.infinityBits) :
    -Binary.floatOf false m = Binary.floatOf true m := by
  have hlt : m < 2 ^ 63 := Nat.lt_of_le_of_lt hm (by decide +kernel)
  have hflip : UInt64.ofBitVec (flipSign (UInt64.ofNat m).toBitVec) =
      UInt64.ofNat (Binary.signWeight + m) := by
    apply UInt64.toNat_inj.mp
    have hm' : (UInt64.ofNat m).toBitVec.toNat = m := Nat.mod_eq_of_lt (by omega)
    have hs : (UInt64.ofNat (Binary.signWeight + m)).toNat = (2 ^ 63 + m) % 2 ^ 64 := rfl
    rw [hs, UInt64.toNat_ofBitVec, toNat_flipSign, hm', Nat.add_comm]
  have hneg : -Binary.floatOf false m = Float.ofModel
      (Float.Model.pack (Float.ofBits (UInt64.ofNat m)).toModel.unpack.neg) := rfl
  rw [hneg, unpack_ofBits hm, ← unpack_flipSign]
  exact congrArg Float.ofBits hflip

end Reckon
