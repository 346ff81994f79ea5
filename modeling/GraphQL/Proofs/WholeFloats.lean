import GraphQL.Value.Json
import Mathlib.Data.Nat.Digits.Defs

/-!
# Whole numbers as floats

A whole number of 64 bits lies far below the largest float, so the float nearest to it is finite. A
float is finite unless all bits of its exponent are set; unpacking such bits and packing them again
does not set them, and the bits nearest to a whole number do not come near them.

Results:
* `Binary64.isFinite_ofBits_of_lt`: bits below those of infinity stand for numbers.
* `Binary64.nearestBits_lt`: the bits nearest to a whole number of 64 bits are such bits.
* `Decimal.isFinite_toFloat`: so the float nearest to it is finite.
-/

namespace GraphQL

namespace Binary64

open Float.Model

/-! ## Bits that stand for numbers -/

/-- The bits of the exponent. -/
def exponent (bits : BitVec 64) : BitVec 11 :=
  @UnpackedFloat.unpackExponent Format.binary64 bits

theorem toNat_exponent (bits : BitVec 64) :
    (exponent bits).toNat = bits.toNat / twoTo 52 % twoTo 11 := by
  simp [exponent, UnpackedFloat.unpackExponent, Nat.shiftRight_eq_div_pow, twoTo]

/-- A number whose exponent has room above it. -/
inductive Roomy : UnpackedFloat → Prop
  | zero (sign : UnpackedFloat.Sign) : Roomy (.zero sign)
  | finite {sign : UnpackedFloat.Sign} {mantissa : Nat} {e : Int} {hpos : 0 < mantissa} :
    e < 972 → Roomy (.finite sign mantissa e hpos)

theorem Roomy.isFinite {f : UnpackedFloat} (h : Roomy f) : f.isFinite = true := by
  cases h <;> rfl

/-- Unless all bits of the exponent are set, what is unpacked has room. -/
theorem roomy_unpack {bits : BitVec 64} (h : exponent bits ≠ -1#11) :
    Roomy (UnpackedFloat.unpack Format.binary64 bits) := by
  have hlt : (exponent bits).toNat < 2047 := by
    have hne : (exponent bits).toNat ≠ (-1#11).toNat := fun he => h (BitVec.eq_of_toNat_eq he)
    have hbound := (exponent bits).isLt
    simp only [BitVec.reduceNeg, BitVec.toNat_ofNat] at hne
    omega
  unfold UnpackedFloat.unpack
  rw [← exponent]
  dsimp only
  rw [if_neg h]
  by_cases hzero : exponent bits = 0#11
  · rw [if_pos hzero]
    by_cases hmantissa : @UnpackedFloat.unpackMantissa Format.binary64 bits = 0#52
    · rw [dif_pos hmantissa]
      exact .zero _
    · rw [dif_neg hmantissa]
      refine .finite ?_
      simp only [Format.exponentBias, hzero, BitVec.toNat_zero]
      decide
  · rw [if_neg hzero]
    refine .finite ?_
    simp only [Format.exponentBias]
    omega

/-- Packing a number whose exponent has room does not set all bits of the exponent. -/
theorem exponent_pack_ne {f : UnpackedFloat} (h : Roomy f) :
    exponent (UnpackedFloat.pack Format.binary64 f) ≠ -1#11 := by
  cases h with
  | zero sign =>
    have hpack : UnpackedFloat.pack Format.binary64 (.zero sign) =
        UnpackedFloat.packComponents Format.binary64 sign 0 0 := rfl
    rw [hpack, exponent, UnpackedFloat.unpackExponent_packComponents]
    decide
  | @finite sign mantissa e hpos hroom =>
    have hbiased : (e + (Format.binary64.exponentBias : Int) + (52 : Nat)).toNat + 1 < 2 ^ 11 := by
      simp only [Format.exponentBias]
      omega
    have hpack : UnpackedFloat.pack Format.binary64 (.finite sign mantissa e hpos) =
        if mantissa.log2 + 1 = Format.binary64.mantissaBits then
          UnpackedFloat.packComponents Format.binary64 sign
            (BitVec.ofNat _ (e + (Format.binary64.exponentBias : Int) + (52 : Nat)).toNat)
            (BitVec.ofNat _ mantissa)
        else UnpackedFloat.packComponents Format.binary64 sign 0 (BitVec.ofNat _ mantissa) :=
      if_neg (Nat.not_le.mpr hbiased)
    rw [hpack, exponent]
    split
    · rw [UnpackedFloat.unpackExponent_packComponents]
      intro hset
      have htoNat := congrArg BitVec.toNat hset
      rw [BitVec.toNat_ofNat, Nat.mod_eq_of_lt (Nat.lt_of_succ_lt hbiased)] at htoNat
      simp only [BitVec.reduceNeg, BitVec.toNat_ofNat] at htoNat
      omega
    · rw [UnpackedFloat.unpackExponent_packComponents]
      decide

theorem isFinite_ofBits {bits : UInt64} (h : exponent bits.toBitVec ≠ -1#11) :
    (Float.ofBits bits).isFinite = true :=
  (roomy_unpack (exponent_pack_ne (roomy_unpack h))).isFinite

/-- Bits below those of infinity stand for numbers, with either sign. -/
theorem isFinite_ofBits_of_lt {bits : Nat} (h : bits < infinityBits) (negative : Bool) :
    (Float.ofBits (UInt64.ofNat (if negative then twoTo 63 + bits else bits))).isFinite = true := by
  apply isFinite_ofBits
  intro hset
  have htoNat := congrArg BitVec.toNat hset
  rw [toNat_exponent] at htoNat
  simp only [UInt64.toNat_toBitVec, UInt64.toNat_ofNat', twoTo, infinityBits, BitVec.reduceNeg,
    BitVec.toNat_ofNat] at htoNat h
  cases negative <;> simp at htoNat <;> omega

/-! ## The bits nearest to a whole number -/

theorem roundQuotient_le (tie : Tie) (num den : Nat) :
    roundQuotient tie num den ≤ num / den + 1 := by
  unfold roundQuotient
  dsimp only
  split
  · exact Nat.le_succ _
  · split
    · exact Nat.le_refl _
    · cases tie with
      | toEven => dsimp only; split <;> omega
      | up => exact Nat.le_refl _

theorem floorLog2_one {n : Nat} (h : n ≠ 0) : floorLog2 n 1 = n.log2 := by
  have hle : 2 ^ n.log2 ≤ n := Nat.log2_self_le h
  have hone : Nat.log2 1 = 0 := by decide
  simp [floorLog2, twoTo, hone, hle]

/-- The significand of a whole number keeps 53 bits, a carry included. -/
theorem roundQuotient_scaled_le (n : Nat) :
    (if 0 ≤ (n.log2 : Int) - 52 then
        roundQuotient .toEven n (1 * twoTo ((n.log2 : Int) - 52).toNat)
      else roundQuotient .toEven (n * twoTo (-((n.log2 : Int) - 52)).toNat) 1) ≤ 2 ^ 53 := by
  have hnext : n < 2 ^ (n.log2 + 1) := Nat.lt_log2_self
  have hpow : ∀ k, twoTo k = 2 ^ k := fun _ => rfl
  split
  · refine (roundQuotient_le _ _ _).trans ?_
    have hdiv : n / (1 * twoTo ((n.log2 : Int) - 52).toNat) < 2 ^ 53 := by
      rw [Nat.one_mul, hpow, Nat.div_lt_iff_lt_mul (Nat.two_pow_pos _), ← Nat.pow_add]
      exact hnext.trans_le (Nat.pow_le_pow_right (by decide) (by omega))
    omega
  · refine (roundQuotient_le _ _ _).trans ?_
    have hmul : n * twoTo (-((n.log2 : Int) - 52)).toNat < 2 ^ 53 := by
      rw [hpow]
      refine ((Nat.mul_lt_mul_right (Nat.two_pow_pos _)).mpr hnext).trans_le ?_
      rw [← Nat.pow_add]
      exact Nat.pow_le_pow_right (by decide) (by omega)
    rw [Nat.div_one]
    omega

/-- The bits nearest to a whole number of 64 bits are below those of infinity. -/
theorem nearestBits_lt {n : Nat} (h : n < 2 ^ 64) : nearestBits n 1 < infinityBits := by
  by_cases hzero : n = 0
  · rw [hzero]
    decide
  have hlog : n.log2 < 64 := (Nat.log2_lt hzero).mpr h
  unfold nearestBits
  rw [if_neg hzero, floorLog2_one hzero]
  dsimp only
  have hq : max ((n.log2 : Int) - 52) (-1074) = (n.log2 : Int) - 52 := by omega
  rw [hq]
  have hm := roundQuotient_scaled_le n
  have hexponent : ((n.log2 : Int) - 52 + 1074).toNat * twoTo 52 ≤ 1085 * twoTo 52 :=
    Nat.mul_le_mul_right _ (by omega)
  have htop : 1085 * twoTo 52 + 2 ^ 53 < infinityBits := by decide
  refine Nat.lt_of_le_of_lt (Nat.min_le_left _ _) ?_
  omega

end Binary64

/-- The float nearest to a whole number of 64 bits is finite, with either sign. -/
theorem Decimal.isFinite_toFloat {digits : Nat} (h : digits < 2 ^ 64) (negative : Bool) :
    (toFloat ⟨negative, digits, 0⟩).isFinite = true := by
  have hplaces : (Nat.toDigits 10 digits).length ≤ 20 :=
    Nat.toDigits_length 10 digits 20 (by decide) (h.trans (by decide))
  unfold toFloat
  dsimp only
  refine Binary64.isFinite_ofBits_of_lt ?_ _
  split
  · decide
  · rw [if_neg (by omega), if_neg (by omega), if_pos (by decide)]
    simpa [tenTo] using Binary64.nearestBits_lt h

theorem isFinite_floatOfInt {i : Int} (h : i.natAbs < 2 ^ 64) : (floatOfInt i).isFinite = true :=
  Decimal.isFinite_toFloat h _

end GraphQL
