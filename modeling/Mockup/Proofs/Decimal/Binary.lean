import Mathlib.Algebra.Order.Field.Power
import Mathlib.Data.Int.Cast.Lemmas
import Mathlib.Data.Rat.Cast.Order
import Mockup.Decimal.Binary

/-!
# Values of floating-point numbers

A finite floating-point number stands for a rational number. It is read off the logical model of
floating-point numbers here; `Binary` reads the same number off the bits.

* `b.value` — the number that the parts of a binary number make up.
* `value? x` — the number that a floating-point number stands for, unless it is infinite or no
  number.

## Main results

* `map_value_ofFloat?`: the parts that are read off the bits make up the number.
* `isIntegral_of_value_eq`, `truncated_of_value_eq`: an integer is recognized by its parts, and is
  its own integer part.
* `zero_lt_iff_of_value?`: a floating-point number is positive exactly if its value is.
-/

namespace Mockup

open Float.Model (UnpackedFloat Format)
open Float.Model.UnpackedFloat

/-- The number that the parts make up. -/
def Binary.value (b : Binary) : ℚ :=
  (if b.negative then -(b.mantissa : ℚ) else b.mantissa) * 2 ^ b.exponent

/-- The number that an unpacked floating-point number stands for. -/
def unpackedValue? : UnpackedFloat → Option ℚ
  | .infinity _ | .notANumber => none
  | .zero _ => some 0
  | .finite s m e _ => some (s.apply m * 2 ^ e)

/-- The number that a floating-point number stands for. -/
def value? (x : Float) : Option ℚ :=
  unpackedValue? x.toModel.unpack

namespace Binary

/-! ### The parts of a word -/

section Word

variable (w : BitVec Format.binary64.numBits)

theorem toNat_unpackMantissa : (unpackMantissa w).toNat = w.toNat % hidden := by
  change (w.extractLsb' 0 52).toNat = _
  rw [BitVec.extractLsb'_toNat]
  rfl

theorem toNat_unpackExponent :
    (unpackExponent w).toNat = w.toNat / hidden % maxBiased.succ := by
  change (w.extractLsb' 52 11).toNat = _
  rw [BitVec.extractLsb'_toNat, Nat.shiftRight_eq_div_pow]
  rfl

theorem toNat_unpackSign :
    (unpackSign w).toNat = w.toNat / hidden / maxBiased.succ := by
  have hw : w.toNat < 2 ^ 64 := w.isLt
  change (w.extractLsb' 63 1).toNat = _
  rw [BitVec.extractLsb'_toNat, Nat.shiftRight_eq_div_pow, Nat.div_div_eq_div_mul]
  -- The sign is the highest bit, so what is left of the word is at most one.
  change w.toNat / 2 ^ 63 % 2 = w.toNat / 2 ^ 63
  exact Nat.mod_eq_of_lt (Nat.div_lt_of_lt_mul hw)

end Word

/-- A mantissa with the leading bit that is not stored. -/
theorem toNat_one_append (m : BitVec 52) : (1#1 ++ m).toNat = m.toNat + hidden := by
  rw [BitVec.toNat_append, Nat.shiftLeft_eq, BitVec.toNat_one (by decide), Nat.one_mul,
    ← Nat.mul_one (2 ^ 52), ← Nat.two_pow_add_eq_or_of_lt m.isLt, Nat.mul_one, Nat.add_comm]
  rfl

theorem value_mk (s : BitVec 1) (mantissa : Nat) (exponent : Int) :
    value ⟨s.toNat == 1, mantissa, exponent⟩ = (Sign.ofBitVec s).apply mantissa * 2 ^ exponent := by
  rcases BitVec.eq_zero_or_eq_one s with rfl | rfl
  · simp [value, Sign.ofBitVec, Sign.apply]
  · simp [value, Sign.ofBitVec, Sign.apply]

theorem apply_zero : ∀ s : Sign, s.apply 0 = 0
  | .positive | .negative => rfl

/-! ### The value of a word -/

section Unpacked

variable {w : BitVec Format.binary64.numBits}

/-- A word with the greatest exponent is an infinity or no number. -/
theorem unpackedValue?_maximal (he : unpackExponent w = -1#11) :
    unpackedValue? (unpack Format.binary64 w) = none := by
  change unpackedValue? (ite (unpackExponent w = -1#11) _ _) = none
  rw [if_pos he]
  by_cases hm : unpackMantissa w = 0#52
  · rw [if_pos hm]
    rfl
  · rw [if_neg hm]
    rfl

/-- A word with the least exponent is zero or a number without a leading bit. -/
theorem unpackedValue?_least (he : unpackExponent w = 0#11) :
    unpackedValue? (unpack Format.binary64 w) =
      some (((Sign.ofBitVec (unpackSign w)).apply (unpackMantissa w).toNat : ℚ) *
        2 ^ minExponent) := by
  have hne : unpackExponent w ≠ -1#11 := by
    rw [he]
    decide
  have hexponent : ((unpackExponent w).toNat : Int) - (1023 + 52) + 1 = minExponent := by
    rw [he]
    rfl
  change unpackedValue? (ite (unpackExponent w = -1#11) _ (ite (unpackExponent w = 0#11) _ _)) = _
  rw [if_neg hne, if_pos he]
  by_cases hm : unpackMantissa w = 0#52
  · rw [dif_pos hm, hm, BitVec.toNat_zero, Nat.cast_zero, apply_zero, Int.cast_zero, zero_mul]
    rfl
  · rw [dif_neg hm, ← hexponent]
    rfl

/-- Any other word is a number with a leading bit. -/
theorem unpackedValue?_leading (hmaximal : unpackExponent w ≠ -1#11)
    (hleast : unpackExponent w ≠ 0#11) :
    unpackedValue? (unpack Format.binary64 w) =
      some (((Sign.ofBitVec (unpackSign w)).apply ↑((unpackMantissa w).toNat + hidden) : ℚ) *
        2 ^ (((unpackExponent w).toNat : Int) - 1 + minExponent)) := by
  have hexponent : ((unpackExponent w).toNat : Int) - (1023 + 52) =
      ((unpackExponent w).toNat : Int) - 1 + minExponent := by
    rw [minExponent]
    omega
  change unpackedValue? (ite (unpackExponent w = -1#11) _ (ite (unpackExponent w = 0#11) _ _)) = _
  rw [if_neg hmaximal, if_neg hleast, ← hexponent, ← toNat_one_append]
  rfl

end Unpacked

/-- The value of a word from the parts in it. -/
theorem unpackedValue?_unpack (w : BitVec Format.binary64.numBits) :
    unpackedValue? (unpack Format.binary64 w) =
      if (unpackExponent w).toNat = maxBiased then none
      else if (unpackExponent w).toNat = 0 then
        some (value ⟨(unpackSign w).toNat == 1, (unpackMantissa w).toNat, minExponent⟩)
      else
        some (value ⟨(unpackSign w).toNat == 1, (unpackMantissa w).toNat + hidden,
          ((unpackExponent w).toNat : Int) - 1 + minExponent⟩) := by
  have hmaximal : (unpackExponent w).toNat = maxBiased ↔ unpackExponent w = -1#11 :=
    BitVec.toNat_inj (y := -1#11)
  have hzero : (unpackExponent w).toNat = 0 ↔ unpackExponent w = 0#11 :=
    BitVec.toNat_inj (y := 0#11)
  by_cases hgreatest : unpackExponent w = -1#11
  · rw [if_pos (hmaximal.2 hgreatest), unpackedValue?_maximal hgreatest]
  rw [if_neg (mt hmaximal.1 hgreatest)]
  by_cases hleast : unpackExponent w = 0#11
  · rw [if_pos (hzero.2 hleast), unpackedValue?_least hleast, value_mk]
  · rw [if_neg (mt hzero.1 hleast), unpackedValue?_leading hgreatest hleast, value_mk]

/-- The parts that are read off the bits make up the number; infinities and values that are no
number have neither parts nor a value. -/
theorem map_value_ofFloat? (x : Float) : (ofFloat? x).map value = value? x := by
  have hvalue := unpackedValue?_unpack x.toModel.toBits.toBitVec
  rw [toNat_unpackExponent, toNat_unpackMantissa, toNat_unpackSign] at hvalue
  rw [value?, Float.Model.unpack, hvalue, ofFloat?]
  simp only [apply_ite (Option.map value), Option.map_none, Option.map_some]
  rfl

/-! ### Integers -/

/-- The number without fractions: scaled up where the exponent is negative. -/
theorem value_mul_two_pow (b : Binary) :
    b.value * 2 ^ (-b.exponent).toNat =
      (if b.negative then -(b.mantissa : ℚ) else b.mantissa) * 2 ^ b.exponent.toNat := by
  have hexponent : b.exponent + (-b.exponent).toNat = b.exponent.toNat := by omega
  rw [value, mul_assoc, ← zpow_natCast, ← zpow_add₀ two_ne_zero, hexponent, zpow_natCast]

/-- The absolute value of an integer, scaled up where the exponent is negative. -/
theorem natAbs_mul_two_pow {b : Binary} {z : ℤ} (h : b.value = z) :
    z.natAbs * 2 ^ (-b.exponent).toNat = b.mantissa * 2 ^ b.exponent.toNat := by
  have hscaled := b.value_mul_two_pow
  rw [h] at hscaled
  have hint : z * 2 ^ (-b.exponent).toNat =
      (if b.negative then -(b.mantissa : ℤ) else b.mantissa) * 2 ^ b.exponent.toNat := by
    rw [← @Int.cast_inj ℚ]
    push_cast
    exact hscaled
  have hmantissa : (if b.negative then -(b.mantissa : ℤ) else b.mantissa).natAbs = b.mantissa := by
    split <;> simp
  have habs := congrArg Int.natAbs hint
  rwa [Int.natAbs_mul, Int.natAbs_mul, hmantissa, Int.natAbs_pow, Int.natAbs_pow] at habs

/-- An integer is recognized as one. -/
theorem isIntegral_of_value_eq {b : Binary} {z : ℤ} (h : b.value = z) : b.isIntegral = true := by
  have hscaled := natAbs_mul_two_pow h
  rw [isIntegral, Nat.pow_eq, beq_iff_eq]
  refine Nat.mod_eq_zero_of_dvd ?_
  -- One of the two powers is one, depending on the sign of the exponent.
  rcases le_or_gt 0 b.exponent with hexponent | hexponent
  · rw [show (-b.exponent).toNat = 0 by omega, Nat.pow_zero]
    exact Nat.one_dvd _
  · rw [show b.exponent.toNat = 0 by omega, Nat.pow_zero, Nat.mul_one] at hscaled
    exact ⟨z.natAbs, by rw [← hscaled, Nat.mul_comm]⟩

theorem floorAbs_of_value_eq {b : Binary} {z : ℤ} (h : b.value = z) : b.floorAbs = z.natAbs := by
  rw [floorAbs, Nat.pow_eq, Nat.pow_eq, ← natAbs_mul_two_pow h,
    Nat.mul_div_cancel _ (Nat.two_pow_pos _)]

/-- An integer is its own integer part. -/
theorem truncated_of_value_eq {b : Binary} {z : ℤ} (h : b.value = z) : b.truncated = z := by
  have hpow : (0 : ℚ) ≤ 2 ^ b.exponent := by positivity
  have hmantissa : (0 : ℚ) ≤ b.mantissa := Nat.cast_nonneg _
  rw [truncated, floorAbs_of_value_eq h]
  rw [value] at h
  -- The sign of the value is that of the number, so rounding toward zero does nothing.
  split
  · next hnegative =>
    rw [if_pos hnegative] at h
    have hz : (z : ℚ) ≤ 0 := h ▸ mul_nonpos_of_nonpos_of_nonneg (neg_nonpos.2 hmantissa) hpow
    have : z ≤ 0 := by exact_mod_cast hz
    omega
  · next hnegative =>
    rw [if_neg hnegative] at h
    have hz : (0 : ℚ) ≤ z := h ▸ mul_nonneg hmantissa hpow
    have : 0 ≤ z := by exact_mod_cast hz
    omega

end Binary

/-! ### Order -/

/-- Comparing with zero looks at the kind and the sign of a number only. -/
theorem zero_lt_iff {x : Float} :
    0.0 < x ↔ (UnpackedFloat.zero .positive).lt x.toModel.unpack = true := by
  have hzero : (Float.toModel 0.0).unpack = .zero .positive := rfl
  simp only [LT.lt, Float.lt, Float.Model.lt, hzero, decide_eq_true_iff]

/-- A finite floating-point number is greater than zero exactly if its value is. -/
theorem zero_lt_iff_of_value? {x : Float} {q : ℚ} (h : value? x = some q) : 0.0 < x ↔ 0 < q := by
  rw [value?] at h
  rw [zero_lt_iff]
  cases hx : x.toModel.unpack with
  | infinity | notANumber =>
    rw [hx] at h
    cases h
  | zero s =>
    rw [hx] at h
    cases h
    exact iff_of_false nofun (lt_irrefl 0)
  | finite s m e hm =>
    rw [hx] at h
    cases h
    have hpow : (0 : ℚ) < 2 ^ e := by positivity
    -- The power of two is positive, so the mantissa and its sign decide.
    rw [mul_pos_iff_of_pos_right hpow]
    cases s with
    | positive => exact iff_of_true rfl (by simpa [Sign.apply] using hm)
    | negative => exact iff_of_false nofun (by simp [Sign.apply])

/-- A finite floating-point number has a value. -/
theorem exists_value?_of_isFinite {x : Float} (h : x.isFinite = true) : ∃ q, value? x = some q := by
  rw [value?]
  rw [Float.isFinite, Float.Model.isFinite] at h
  cases hx : x.toModel.unpack with
  | infinity | notANumber => rw [hx] at h; cases h
  | zero | finite => exact ⟨_, rfl⟩

end Mockup
