import Reckon.Proofs.FloatBits

/-!
Signs of doubles.

The negation of a double is the double with the other sign, and what is not a number stays as it is. So
two negations cancel, a difference is the sum with the negation, and adding zero changes the negative
zero alone.
-/

namespace Reckon

open Float.Model Float.Model.UnpackedFloat

theorem sign_neg_neg (s : Sign) : - -s = s := by
  cases s <;> rfl

theorem apply_neg (s : Sign) (n : Int) : (-s).apply n = -s.apply n := by
  cases s with
  | negative => exact (Int.neg_neg n).symm
  | positive => rfl

section Unpacked

variable (spec : Format) (u v : UnpackedFloat)

theorem unpacked_neg_neg : u.neg.neg = u := by
  cases u <;> simp [UnpackedFloat.neg, sign_neg_neg]

theorem unpacked_sub_neg : u.sub spec v.neg = u.add spec v := by
  cases u with
  | notANumber => rfl
  | infinity s =>
    cases v with
    | infinity t => cases s <;> cases t <;> rfl
    | _ => rfl
  | zero s =>
    cases v with
    | infinity t => exact congrArg UnpackedFloat.infinity (sign_neg_neg t)
    | zero t => cases s <;> cases t <;> rfl
    | notANumber => rfl
    | finite t n f hn =>
      simp only [UnpackedFloat.sub, UnpackedFloat.add, UnpackedFloat.neg, sign_neg_neg]
  | finite s m e hm =>
    cases v with
    | infinity t => exact congrArg UnpackedFloat.infinity (sign_neg_neg t)
    | notANumber | zero t => rfl
    | finite t n f hn =>
      simp only [UnpackedFloat.sub, UnpackedFloat.add, UnpackedFloat.neg, apply_neg, Int.sub_neg]

theorem unpacked_zero_add :
    UnpackedFloat.add spec (.zero .positive) u = u.add spec (.zero .positive) := by
  cases u with
  | zero s => cases s <;> rfl
  | _ => rfl

theorem unpacked_add_zero {u : UnpackedFloat} (h : u ≠ .zero .negative) :
    u.add spec (.zero .positive) = u := by
  cases u with
  | zero s =>
    cases s with
    | negative => exact absurd rfl h
    | positive => rfl
  | _ => rfl

end Unpacked

section Patterns

variable (b : Pattern64)

theorem ofBitVec_toBitVec (s : Sign) : Sign.ofBitVec s.toBitVec = s := by
  cases s <;> rfl

theorem unpackSign_packComponents (s : Sign) (e : BitVec Format.binary64.exponentBits)
    (m : BitVec Format.binary64.mantissaBitsWithoutImplicit) :
    unpackSign (packComponents Format.binary64 s e m) = s.toBitVec := by
  ext i hi
  obtain rfl : i = 0 := Nat.lt_one_iff.mp hi
  have hbit : (unpackSign (packComponents Format.binary64 s e m))[0] =
      (packComponents Format.binary64 s e m).getLsbD 63 := by
    simp [unpackSign]
  rw [hbit, packComponents, BitVec.getLsbD_append, BitVec.getLsbD_append]
  rfl

/-- The pattern with the other sign. -/
def flipSign : Pattern64 :=
  packComponents Format.binary64 (-Sign.ofBitVec (unpackSign b)) (unpackExponent b)
    (unpackMantissa b)

theorem unpack_flipSign :
    unpack Format.binary64 (flipSign b) = (unpack Format.binary64 b).neg := by
  unfold UnpackedFloat.unpack flipSign
  simp only [unpackExponent_packComponents, unpackMantissa_packComponents,
    unpackSign_packComponents, ofBitVec_toBitVec]
  split
  · split <;> rfl
  · split
    · split <;> rfl
    · rfl

theorem valid_flipSign {b : Pattern64} (h : unpack Format.binary64 b ≠ .notANumber) :
    Format.binary64.Valid (flipSign b) := by
  refine ⟨fun he hm => (h ?_).elim⟩
  rw [flipSign, unpackExponent_packComponents] at he
  rw [flipSign, unpackMantissa_packComponents] at hm
  simp only [UnpackedFloat.unpack, if_pos he, if_neg hm]

/-- The negation of what a pattern stands for is not changed by being packed. -/
theorem unpack_pack_neg :
    unpack Format.binary64 (UnpackedFloat.pack Format.binary64 (unpack Format.binary64 b).neg) =
      (unpack Format.binary64 b).neg := by
  by_cases h : unpack Format.binary64 b = .notANumber
  · rw [h]
    rfl
  · rw [← unpack_flipSign, pack_unpack (valid_flipSign h)]

end Patterns

section Doubles

variable (x y : Float)

theorem ofModel_pack_unpack : Float.ofModel (Float.Model.pack x.toModel.unpack) = x := by
  obtain ⟨bits, hvalid⟩ := x
  simp only [Float.Model.pack, Float.Model.unpack, pack_unpack hvalid]

theorem unpack_neg : (-x).toModel.unpack = x.toModel.unpack.neg :=
  unpack_pack_neg x.toModel.toBits.toBitVec

theorem neg_neg_double : - -x = x := by
  have h : - -x = Float.ofModel (Float.Model.pack (-x).toModel.unpack.neg) := rfl
  rw [h, unpack_neg, unpacked_neg_neg, ofModel_pack_unpack]

theorem sub_neg_double : x - -y = x + y := by
  have h : x - -y = Float.ofModel
      (Float.Model.pack (x.toModel.unpack.sub Format.binary64 (-y).toModel.unpack)) := rfl
  rw [h, unpack_neg, unpacked_sub_neg]
  rfl

theorem zero_add_double : 0.0 + x = x + 0.0 :=
  congrArg (Float.ofModel <| Float.Model.pack ·) (unpacked_zero_add _ x.toModel.unpack)

theorem unpack_eq_negative_zero : x.toModel.unpack = .zero .negative ↔ x = -0.0 := by
  constructor
  · intro h
    rw [← ofModel_pack_unpack x, h]
    rfl
  · rintro rfl
    rfl

theorem add_zero_eq_self : x + 0.0 = x ↔ x ≠ -0.0 := by
  constructor
  · rintro h rfl
    exact absurd h (by decide)
  · intro hx
    have h : x + 0.0 = Float.ofModel
        (Float.Model.pack (x.toModel.unpack.add Format.binary64 (.zero .positive))) := rfl
    rw [h, unpacked_add_zero _ (mt (unpack_eq_negative_zero x).mp hx), ofModel_pack_unpack]

end Doubles

end Reckon
