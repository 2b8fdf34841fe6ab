import Mathlib
import Reckon.Number.Binary

/-!
Doubles and their bit patterns.

A double is determined by its pattern, and whether it is finite, zero or not a number can be read off
the exponent and the fraction in it.
-/

namespace Reckon

open Float.Model Float.Model.UnpackedFloat

/-- The width of a pattern, as the fields of a double are taken from it. -/
abbrev Pattern64 := BitVec Format.binary64.numBits

section Fields

variable (b : Pattern64)

theorem toNat_exponent : (unpackExponent b).toNat = b.toNat / 2 ^ 52 % 2 ^ 11 := by
  simp [unpackExponent, Nat.shiftRight_eq_div_pow]

theorem toNat_fraction : (unpackMantissa b).toNat = b.toNat % 2 ^ 52 := by
  simp [unpackMantissa]

theorem toBitVec_sign : (Sign.ofBitVec (unpackSign b)).toBitVec = unpackSign b := by
  generalize unpackSign b = s
  obtain rfl | rfl : s = 0#1 ∨ s = 1#1 := by
    have := s.isLt
    have h : s.toNat = 0 ∨ s.toNat = 1 := by omega
    exact h.imp BitVec.eq_of_toNat_eq BitVec.eq_of_toNat_eq
  · rfl
  · rfl

theorem packComponents_fields :
    packComponents Format.binary64 (Sign.ofBitVec (unpackSign b)) (unpackExponent b)
      (unpackMantissa b) = b := by
  rw [packComponents, toBitVec_sign]
  apply BitVec.eq_of_toNat_eq
  have hlt : b.toNat < 2 ^ 64 := b.isLt
  have hs : (unpackSign b).toNat = b.toNat / 2 ^ 63 % 2 := by
    simp [unpackSign, Nat.shiftRight_eq_div_pow]
  simp only [BitVec.toNat_append, toNat_exponent, toNat_fraction, hs]
  rw [← Nat.shiftLeft_add_eq_or_of_lt (by omega), ← Nat.shiftLeft_add_eq_or_of_lt (by omega)]
  simp only [Nat.shiftLeft_eq]
  omega

end Fields

theorem bias_eq : (Format.binary64.exponentBias : Int) = 1023 := rfl

theorem fractionBits_eq : (Format.binary64.mantissaBitsWithoutImplicit : Int) = 52 := rfl

theorem log2_add_one_ne {m : Nat} (h : m < 2 ^ 52) : m.log2 + 1 ≠ Format.binary64.mantissaBits := by
  intro he
  have h₅₂ : m.log2 = 52 := by
    have : Format.binary64.mantissaBits = 53 := rfl
    omega
  have hpos : m ≠ 0 := by
    rintro rfl
    simp at h₅₂
  have := (Nat.le_log2 hpos).mp (Nat.le_of_eq h₅₂.symm)
  omega

theorem log2_add_one_eq {m : Nat} (h : m < 2 ^ 52) :
    (2 ^ 52 + m).log2 + 1 = Format.binary64.mantissaBits := by
  have hlow := (Nat.le_log2 (n := 2 ^ 52 + m) (k := 52) (by omega)).mpr (by omega)
  have hhigh := (Nat.log2_lt (n := 2 ^ 52 + m) (k := 53) (by omega)).mpr (by omega)
  have : Format.binary64.mantissaBits = 53 := rfl
  omega

/-- Packing gives back the pattern that was unpacked, the one for no number included. -/
theorem pack_unpack {b : Pattern64} (hb : Format.binary64.Valid b) :
    UnpackedFloat.pack Format.binary64 (unpack Format.binary64 b) = b := by
  have hlt : (unpackMantissa b).toNat < 2 ^ 52 := (unpackMantissa b).isLt
  have hexp : (unpackExponent b).toNat < 2 ^ 11 := (unpackExponent b).isLt
  unfold UnpackedFloat.unpack
  simp only
  split
  · rename_i h
    split
    · rename_i hz
      exact (h ▸ hz ▸ packComponents_fields b :)
    · rename_i hnz
      exact (hb.eq_packedNaN h hnz).symm
  · rename_i hfinite
    split
    · rename_i h
      split
      · rename_i hz
        exact (h ▸ hz ▸ packComponents_fields b :)
      · have hbiased : (((unpackExponent b).toNat : Int) - ((Format.binary64.exponentBias : Int) +
            Format.binary64.mantissaBitsWithoutImplicit) + 1 + Format.binary64.exponentBias +
            Format.binary64.mantissaBitsWithoutImplicit).toNat = 1 := by
          rw [h, bias_eq, fractionBits_eq]
          rfl
        simp only [UnpackedFloat.pack, hbiased]
        rw [if_neg (by decide), if_neg (log2_add_one_ne hlt), BitVec.ofNat_toNat,
          BitVec.setWidth_eq, ← h]
        exact packComponents_fields b
    · have hbiased : (((unpackExponent b).toNat : Int) - ((Format.binary64.exponentBias : Int) +
          Format.binary64.mantissaBitsWithoutImplicit) + Format.binary64.exponentBias +
          Format.binary64.mantissaBitsWithoutImplicit).toNat = (unpackExponent b).toNat := by
        omega
      have hleading : (1#1 ++ unpackMantissa b).toNat = 2 ^ 52 + (unpackMantissa b).toNat := by
        rw [BitVec.toNat_append, ← Nat.shiftLeft_add_eq_or_of_lt hlt, Nat.shiftLeft_eq]
        simp
      have hnot : ¬2 ^ 11 ≤ (unpackExponent b).toNat + 1 := by
        intro hle
        exact hfinite (BitVec.eq_of_toNat_eq (show _ = 2047 by omega))
      simp only [UnpackedFloat.pack, hbiased, hleading]
      rw [if_neg hnot, if_pos (log2_add_one_eq hlt)]
      have hfraction : BitVec.ofNat 52 (2 ^ 52 + (unpackMantissa b).toNat) = unpackMantissa b := by
        apply BitVec.eq_of_toNat_eq
        rw [BitVec.toNat_ofNat]
        omega
      rw [hfraction, BitVec.ofNat_toNat, BitVec.setWidth_eq]
      exact packComponents_fields b

theorem ofBits_toBits (x : Float) : Float.ofBits x.toBits = x := by
  obtain ⟨bits, hvalid⟩ := x
  have h := pack_unpack hvalid
  simp only [Float.ofBits, Float.toBits, Float.Model.ofBits, Float.Model.pack, h]

theorem toBits_ofBits {n : Nat} (h : n ≤ Binary.infinityBits) :
    (Float.ofBits (UInt64.ofNat n)).toBits.toNat = n := by
  have hn : n ≤ 2047 * 2 ^ 52 := h
  have hb : (UInt64.ofNat n).toBitVec.toNat = n := Nat.mod_eq_of_lt (by omega)
  have hvalid : Format.binary64.Valid (UInt64.ofNat n).toBitVec := by
    refine ⟨fun he hm => absurd (BitVec.eq_of_toNat_eq ?_) hm⟩
    have he' := congrArg BitVec.toNat he
    rw [toNat_exponent, hb] at he'
    rw [toNat_fraction, hb]
    have : n / 2 ^ 52 % 2 ^ 11 = 2047 := he'
    show n % 2 ^ 52 = 0
    omega
  have hpack := pack_unpack hvalid
  simp only [Float.ofBits, Float.toBits, Float.Model.ofBits, Float.Model.pack, hpack]
  exact hb

/-- The pattern of a finite double, but for the sign, is below that of infinity. -/
theorem isFinite_iff_magnitude (x : Float) :
    x.isFinite ↔ x.toBits.toNat % Binary.signWeight < Binary.infinityBits := by
  have hx : x.toBits.toNat < 2 ^ 64 := x.toBits.toNat_lt
  have he := toNat_exponent x.toBits.toBitVec
  have hfull : @unpackExponent Format.binary64 x.toBits.toBitVec = -1#_ ↔
      ¬x.toBits.toNat % Binary.signWeight < Binary.infinityBits := by
    rw [← BitVec.toNat_inj, he]
    show x.toBits.toNat / 2 ^ 52 % 2 ^ 11 = 2047 ↔ ¬x.toBits.toNat % 2 ^ 63 < 2047 * 2 ^ 52
    omega
  show (UnpackedFloat.unpack Format.binary64 x.toBits.toBitVec).isFinite ↔ _
  unfold UnpackedFloat.unpack
  simp only
  split
  · rename_i h
    rw [hfull] at h
    split <;> simp [UnpackedFloat.isFinite, h]
  · rename_i h
    rw [hfull, Decidable.not_not] at h
    split
    · split <;> simp [UnpackedFloat.isFinite, h]
    · simp [UnpackedFloat.isFinite, h]

theorem isFinite_iff {x : Float} (hx : x.toBits.toNat < Binary.signWeight) :
    x.isFinite ↔ x.toBits.toNat < Binary.infinityBits := by
  rw [isFinite_iff_magnitude, Nat.mod_eq_of_lt hx]

theorem isNaN_of_isFinite {x : Float} (h : x.isFinite) : x.isNaN = false := by
  revert h
  show x.toModel.unpack.isFinite = true → x.toModel.unpack.isNaN = false
  cases x.toModel.unpack <;> simp [UnpackedFloat.isFinite, UnpackedFloat.isNaN]

theorem isInf_of_isFinite {x : Float} (h : x.isFinite) : x.isInf = false := by
  revert h
  show x.toModel.unpack.isFinite = true → x.toModel.unpack.isInf = false
  cases x.toModel.unpack <;> simp [UnpackedFloat.isFinite, UnpackedFloat.isInf]

theorem unpacked_beq_zero (u : UnpackedFloat) : u.beq (.zero .positive) ↔ ∃ s, u = .zero s := by
  cases u with
  | notANumber => simp [UnpackedFloat.beq, UnpackedFloat.compare]
  | zero s => simp [UnpackedFloat.beq, UnpackedFloat.compare]
  | infinity s => cases s <;> simp [UnpackedFloat.beq, UnpackedFloat.compare]
  | finite s m e hm => cases s <;> simp [UnpackedFloat.beq, UnpackedFloat.compare]

/-- The pattern of a zero, but for the sign, is zero. -/
theorem beq_zero_iff_magnitude (x : Float) :
    (x == 0) ↔ x.toBits.toNat % Binary.signWeight = 0 := by
  have hx : x.toBits.toNat < 2 ^ 64 := x.toBits.toNat_lt
  have hzero : (0 : Float).toModel.unpack = .zero .positive := rfl
  show (UnpackedFloat.unpack Format.binary64 x.toBits.toBitVec).beq (0 : Float).toModel.unpack ↔ _
  rw [hzero]
  have hexp : @unpackExponent Format.binary64 x.toBits.toBitVec = 0#_ ↔
      x.toBits.toNat / 2 ^ 52 % 2 ^ 11 = 0 := by
    rw [← BitVec.toNat_inj, toNat_exponent]
    rfl
  have hfrac : @unpackMantissa Format.binary64 x.toBits.toBitVec = 0#_ ↔
      x.toBits.toNat % 2 ^ 52 = 0 := by
    rw [← BitVec.toNat_inj, toNat_fraction]
    rfl
  have hbits : x.toBits.toNat % 2 ^ 63 = 0 ↔
      x.toBits.toNat / 2 ^ 52 % 2 ^ 11 = 0 ∧ x.toBits.toNat % 2 ^ 52 = 0 := by
    omega
  rw [show Binary.signWeight = 2 ^ 63 from rfl, hbits, ← hexp, ← hfrac, unpacked_beq_zero]
  unfold UnpackedFloat.unpack
  simp only
  split
  · rename_i h
    have hne : @unpackExponent Format.binary64 x.toBits.toBitVec ≠ 0#_ := by
      rw [h]
      decide
    split <;> simp [hne]
  · split
    · rename_i h
      split
      · rename_i hz
        simp [h, hz]
      · rename_i hz
        simp [hz]
    · rename_i h
      simp [h]

theorem beq_zero_iff {x : Float} (hx : x.toBits.toNat < Binary.signWeight) :
    (x == 0) ↔ x.toBits.toNat = 0 := by
  rw [beq_zero_iff_magnitude, Nat.mod_eq_of_lt hx]

end Reckon
