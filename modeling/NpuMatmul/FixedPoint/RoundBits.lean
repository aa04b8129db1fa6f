import Mathlib.Algebra.Order.Floor.Semifield
import NpuMatmul.FixedPoint.StochasticRound

set_option autoImplicit false

namespace NpuMatmul

open Binary32

-- Whether the rounding carries: the noise reaches over the fraction that the element leaves.
def roundingCarry (q : ℚ) (noise : BitVec 32) (precision : Nat) : Nat :=
  (⌊|q| * 2 ^ precision⌋₊ + noise.toNat % 2 ^ precision) / 2 ^ precision

def roundedInteger (q : ℚ) (noise : BitVec 32) (precision : Nat) : Int :=
  if q < 0 then -roundingCarry q noise precision else roundingCarry q noise precision

theorem exponentBits_toNat (bits : BitVec 32) :
    ((bits &&& 0x7FFFFFFF#32) >>> 23 &&& 0xFF#32).toNat = biased bits := by
  have low : bits.toNat &&& 0x7FFFFFFF = bits.toNat % 2 ^ 31 :=
    Nat.and_two_pow_sub_one_eq_mod bits.toNat 31
  have field (n : Nat) : n &&& 0xFF = n % 2 ^ 8 := Nat.and_two_pow_sub_one_eq_mod n 8
  simp only [BitVec.toNat_and, BitVec.toNat_ushiftRight, BitVec.toNat_ofNat, biased,
    Nat.shiftRight_eq_div_pow]
  norm_num [low, field]
  omega

theorem exponentBits_eq_zero (bits : BitVec 32) :
    ((bits &&& 0x7FFFFFFF#32) >>> 23 &&& 0xFF#32 == 0#32) = decide (biased bits = 0) := by
  have field := exponentBits_toNat bits
  rw [Bool.eq_iff_iff, beq_iff_eq, decide_eq_true_iff, ← field]
  exact BitVec.toNat_eq

theorem mantissaValue_toNat (bits : BitVec 32) :
    (1#32 <<< 23 ||| (bits &&& 0x7FFFFFFF#32 &&& 0x7FFFFF#32)).toNat = 2 ^ 23 + fraction bits := by
  have low : bits.toNat &&& 0x7FFFFFFF = bits.toNat % 2 ^ 31 :=
    Nat.and_two_pow_sub_one_eq_mod bits.toNat 31
  have part (n : Nat) : n &&& 0x7FFFFF = n % 2 ^ 23 := Nat.and_two_pow_sub_one_eq_mod n 23
  have implicit : (1#32 <<< 23).toNat = 2 ^ 23 := by decide
  have masked : bits.toNat % 2 ^ 31 % 2 ^ 23 = bits.toNat % 2 ^ 23 := by omega
  have disjoint := Nat.two_pow_add_eq_or_of_lt (fraction_lt bits) 1
  rw [BitVec.toNat_or, implicit, BitVec.toNat_and, BitVec.toNat_and]
  simp only [BitVec.toNat_ofNat, Nat.reduceMod, Nat.reducePow, low, part] at *
  rw [masked]
  simpa [fraction] using disjoint.symm

theorem bitShift_toInt (bits : BitVec 32) {precision : Nat} (few : precision ≤ 31) :
    (150#32 - BitVec.ofNat 32 precision -
      ((bits &&& 0x7FFFFFFF#32) >>> 23 &&& 0xFF#32)).toInt =
      150 - (precision : Int) - biased bits := by
  have field := exponentBits_toNat bits
  have below := biased_lt bits
  generalize (bits &&& 0x7FFFFFFF#32) >>> 23 &&& 0xFF#32 = exponentBits at field
  have whole : (BitVec.ofNat 32 precision).toNat = precision := by
    rw [BitVec.toNat_ofNat]
    omega
  have count : (BitVec.ofNat 32 precision).toInt = precision := by
    rw [BitVec.toInt_eq_toNat_of_lt (by omega), whole]
  have implicit : (150#32).toInt = 150 := by decide
  have exponent : exponentBits.toInt = biased bits := by
    rw [BitVec.toInt_eq_toNat_of_lt (by omega), field]
  have first : (150 - (precision : Int)).bmod (2 ^ 32) = 150 - precision :=
    Int.bmod_eq_of_le (by omega) (by omega)
  have second : (150 - (precision : Int) - biased bits).bmod (2 ^ 32) =
      150 - precision - biased bits := Int.bmod_eq_of_le (by omega) (by omega)
  rw [BitVec.toInt_sub, BitVec.toInt_sub, count, exponent, implicit, first, second]

theorem mask_toNat (bits : BitVec 32) {precision : Nat} (few : precision ≤ 31) :
    (bits &&& (1#32 <<< precision - 1#32)).toNat = bits.toNat % 2 ^ precision := by
  have small : 2 ^ precision ≤ 2 ^ 31 := Nat.pow_le_pow_right (by decide) few
  have positive := Nat.two_pow_pos precision
  have power : (1#32 <<< precision).toNat = 2 ^ precision := by
    rw [BitVec.toNat_shiftLeft, BitVec.toNat_ofNat, Nat.shiftLeft_eq]
    omega
  have mask : (1#32 <<< precision - 1#32).toNat = 2 ^ precision - 1 := by
    rw [BitVec.toNat_sub, power, BitVec.toNat_ofNat]
    omega
  rw [BitVec.toNat_and, mask, Nat.and_two_pow_sub_one_eq_mod]

-- A shift by 32 or more, which C++ leaves undefined, is guarded and gives 0 like the division.
theorem scaledFixedValue_right (mantissa : BitVec 32) (shift : Nat)
    (below : mantissa.toNat < 2 ^ 24) :
    (calculateScaledFixedValue mantissa shift).toNat = mantissa.toNat / 2 ^ shift := by
  unfold calculateScaledFixedValue
  simp only [Int.natCast_nonneg, if_true, Int.toNat_natCast]
  by_cases inside : (shift : Int) < 32
  · rw [if_pos inside, BitVec.toNat_ushiftRight, Nat.shiftRight_eq_div_pow]
  · have wide : 2 ^ 24 ≤ 2 ^ shift := Nat.pow_le_pow_right (by decide) (by omega)
    rw [if_neg inside, Nat.div_eq_of_lt (by omega)]
    rfl

theorem scaledFixedValue_left (mantissa : BitVec 32) {shift : Nat} (positive : 0 < shift)
    (few : shift ≤ 8) (below : mantissa.toNat < 2 ^ 24) :
    (calculateScaledFixedValue mantissa (-(shift : Int))).toNat = mantissa.toNat * 2 ^ shift := by
  have left : ¬ 0 ≤ -(shift : Int) := by omega
  have guarded : -32 < -(shift : Int) := by omega
  have amount : -(shift : Int) < 0 := by omega
  have whole : mantissa.toNat * 2 ^ shift < 2 ^ 32 := by
    have scale : 2 ^ shift ≤ 2 ^ 8 := Nat.pow_le_pow_right (by decide) few
    calc mantissa.toNat * 2 ^ shift ≤ mantissa.toNat * 2 ^ 8 := Nat.mul_le_mul_left _ scale
      _ < 2 ^ 32 := by omega
  simp only [calculateScaledFixedValue, if_neg left, if_pos guarded, if_pos amount, neg_neg,
    Int.toNat_natCast]
  rw [BitVec.toNat_shiftLeft, Nat.shiftLeft_eq, Nat.mod_eq_of_lt whole]

theorem magnitude_scaled {bits : BitVec 32} (normal : biased bits ≠ 0) (precision : Nat) :
    magnitude bits * 2 ^ precision =
      ((2 ^ 23 + fraction bits : Nat) : ℚ) * 2 ^ (-(150 - (precision : Int) - biased bits)) := by
  have field : ((max (biased bits) 1 : Nat) - 150 : Int) + precision =
      -(150 - (precision : Int) - biased bits) := by omega
  rw [magnitude, significand, if_neg normal, mul_assoc, ← zpow_natCast, ← pow_split, field]

theorem floor_scaled_right {bits : BitVec 32} {precision : Nat} (normal : biased bits ≠ 0)
    (right : biased bits + precision ≤ 150) :
    ⌊magnitude bits * 2 ^ precision⌋₊ =
      (2 ^ 23 + fraction bits) / 2 ^ (150 - precision - biased bits) := by
  have shift : 150 - (precision : Int) - biased bits =
      ((150 - precision - biased bits : Nat) : Int) := by omega
  have floor := Nat.floor_div_eq_div (K := ℚ) (2 ^ 23 + fraction bits)
    (2 ^ (150 - precision - biased bits))
  rw [magnitude_scaled normal, shift, zpow_neg, zpow_natCast, ← div_eq_mul_inv, ← floor]
  push_cast
  rfl

theorem scaledFixedValue_floor {bits mantissa : BitVec 32} {precision : Nat}
    (normal : biased bits ≠ 0) (fits : biased bits + precision ≤ 158)
    (implicit : mantissa.toNat = 2 ^ 23 + fraction bits) :
    (calculateScaledFixedValue mantissa (150 - (precision : Int) - biased bits)).toNat =
      ⌊magnitude bits * 2 ^ precision⌋₊ := by
  have part := fraction_lt bits
  by_cases right : biased bits + precision ≤ 150
  · have shift : 150 - (precision : Int) - biased bits =
        ((150 - precision - biased bits : Nat) : Int) := by omega
    rw [floor_scaled_right normal right, shift, scaledFixedValue_right _ _ (by omega), implicit]
  · have shift : 150 - (precision : Int) - biased bits =
        -((biased bits + precision - 150 : Nat) : Int) := by omega
    rw [magnitude_scaled normal, shift, scaledFixedValue_left _ (by omega) (by omega) (by omega),
      neg_neg, zpow_natCast, implicit]
    exact_mod_cast (Nat.floor_natCast (R := ℚ) _).symm

theorem roundedMagnitude_toNat (scaled noise : BitVec 32) {precision : Nat}
    (few : precision ≤ 31) :
    (scaled >>> precision + ((scaled &&& (1#32 <<< precision - 1#32)) +
      (noise &&& (1#32 <<< precision - 1#32))) >>> precision).toNat =
      (scaled.toNat + noise.toNat % 2 ^ precision) / 2 ^ precision := by
  have small : 2 ^ precision ≤ 2 ^ 31 := Nat.pow_le_pow_right (by decide) few
  have positive := Nat.two_pow_pos precision
  have random := Nat.mod_lt noise.toNat positive
  have part := Nat.mod_lt scaled.toNat positive
  have split := Nat.div_add_mod scaled.toNat (2 ^ precision)
  have below := scaled.isLt
  have sum : (scaled.toNat % 2 ^ precision + noise.toNat % 2 ^ precision) % 2 ^ 32 =
      scaled.toNat % 2 ^ precision + noise.toNat % 2 ^ precision := Nat.mod_eq_of_lt (by omega)
  have carry : (scaled.toNat + noise.toNat % 2 ^ precision) / 2 ^ precision =
      scaled.toNat / 2 ^ precision +
        (scaled.toNat % 2 ^ precision + noise.toNat % 2 ^ precision) / 2 ^ precision := by
    calc (scaled.toNat + noise.toNat % 2 ^ precision) / 2 ^ precision
        = (scaled.toNat % 2 ^ precision + noise.toNat % 2 ^ precision +
            2 ^ precision * (scaled.toNat / 2 ^ precision)) / 2 ^ precision := by
          congr 1
          omega
      _ = _ := by
          rw [Nat.add_mul_div_left _ _ positive]
          omega
  have bound : (scaled.toNat + noise.toNat % 2 ^ precision) / 2 ^ precision < 2 ^ 32 := by
    rw [Nat.div_lt_iff_lt_mul positive]
    by_cases zero : precision = 0
    · subst zero
      omega
    · have even : 2 ^ 1 ≤ 2 ^ precision := Nat.pow_le_pow_right (by decide) (by omega)
      omega
  rw [BitVec.toNat_add, BitVec.toNat_ushiftRight, BitVec.toNat_ushiftRight, BitVec.toNat_add,
    mask_toNat _ few, mask_toNat _ few, Nat.shiftRight_eq_div_pow, Nat.shiftRight_eq_div_pow, sum,
    ← carry]
  exact Nat.mod_eq_of_lt bound

theorem signBitMask_exact (bits : BitVec 32) :
    bits.sshiftRight 31 = if bits.msb then BitVec.allOnes 32 else 0 := by
  have below := bits.isLt
  apply BitVec.eq_of_toNat_eq
  cases sign : bits.msb
  · have small : bits.toNat < 2 ^ 31 := by simpa [BitVec.msb_eq_decide] using sign
    rw [BitVec.toNat_sshiftRight_of_msb_false sign, Nat.shiftRight_eq_div_pow,
      Nat.div_eq_of_lt small]
    rfl
  · have large : 2 ^ 31 ≤ bits.toNat := by simpa [BitVec.msb_eq_decide] using sign
    rw [BitVec.toNat_sshiftRight_of_msb_true sign, Nat.shiftRight_eq_div_pow]
    simp only [if_true, BitVec.toNat_allOnes]
    omega

-- x + -1 ^ -1 is -x in two's complement, and x + 0 ^ 0 is x.
theorem signed_toInt (bits : BitVec 32) {roundedMagnitude : BitVec 32}
    (small : roundedMagnitude.toNat < 2 ^ 31) :
    ((roundedMagnitude + bits.sshiftRight 31) ^^^ bits.sshiftRight 31).toInt =
      if negative bits then -(roundedMagnitude.toNat : Int) else roundedMagnitude.toNat := by
  have plain : roundedMagnitude.toInt = roundedMagnitude.toNat :=
    BitVec.toInt_eq_toNat_of_lt (by omega)
  rw [signBitMask_exact, negative]
  cases bits.msb
  · simp [plain]
  · have minus : (roundedMagnitude + BitVec.allOnes 32) ^^^ BitVec.allOnes 32 =
        -roundedMagnitude := by
      have below := roundedMagnitude.isLt
      apply BitVec.eq_of_toNat_eq
      rw [BitVec.xor_allOnes, BitVec.toNat_not, BitVec.toNat_add, BitVec.toNat_allOnes,
        BitVec.toNat_neg]
      omega
    have inside : (-(roundedMagnitude.toNat : Int)).bmod (2 ^ 32) = -roundedMagnitude.toNat :=
      Int.bmod_eq_of_le (by omega) (by omega)
    simp only [if_true, minus, BitVec.toInt_neg, plain, inside]

theorem value_neg_iff {bits : BitVec 32} (normal : biased bits ≠ 0) :
    value bits < 0 ↔ negative bits = true := by
  have positive : 0 < magnitude bits := lt_of_lt_of_le (pow_pos' _) (magnitude_bounds normal).1
  unfold value
  by_cases sign : negative bits = true
  · simp [sign, positive]
  · simp [sign, le_of_lt positive]

section Process

variable {F : Type} (fp : FloatArith F) {width precision : Nat}

theorem process_isZero (x : F) (noise fractionalMask : BitVec 32) :
    (processSingleStochasticRound fp width x noise precision fractionalMask).isZero =
      decide (biased (fp.toBits x) = 0) :=
  exponentBits_eq_zero _

theorem process_value (few : precision ≤ 31) {x : F} (noise : BitVec 32)
    (normal : biased (fp.toBits x) ≠ 0) (fits : biased (fp.toBits x) + precision ≤ 158)
    (small : roundingCarry (value (fp.toBits x)) noise precision < 2 ^ 31) :
    (processSingleStochasticRound fp width x noise precision (1#32 <<< precision - 1#32)).value =
      BitVec.ofInt width (roundedInteger (value (fp.toBits x)) noise precision) := by
  have scaled := scaledFixedValue_floor normal fits (mantissaValue_toNat (fp.toBits x))
  have magnitude := roundedMagnitude_toNat (calculateScaledFixedValue
    (1#32 <<< 23 ||| (fp.toBits x &&& 0x7FFFFFFF#32 &&& 0x7FFFFF#32))
    (150 - (precision : Int) - biased (fp.toBits x))) noise few
  rw [roundingCarry, abs_value, ← scaled, ← magnitude] at small
  simp only [processSingleStochasticRound, bitShift_toInt _ few]
  rw [signed_toInt _ small, magnitude, scaled]
  simp only [roundedInteger, roundingCarry, value_neg_iff normal, abs_value]

theorem roundElement_zero {inputArray : Nat → F} {index : Nat} (noise : BitVec 32)
    (subnormal : biased (fp.toBits (inputArray index)) = 0) :
    roundElement fp inputArray precision index noise = (0 : BitVec width) := by
  simp [roundElement, process_isZero, subnormal]

theorem roundElement_normal (few : precision ≤ 31) {inputArray : Nat → F} {index : Nat}
    (noise : BitVec 32) (normal : biased (fp.toBits (inputArray index)) ≠ 0)
    (fits : biased (fp.toBits (inputArray index)) + precision ≤ 158)
    (small : roundingCarry (value (fp.toBits (inputArray index))) noise precision < 2 ^ 31) :
    roundElement fp inputArray precision index noise =
      BitVec.ofInt width (roundedInteger (value (fp.toBits (inputArray index))) noise precision) := by
  simp [roundElement, process_isZero, normal, process_value fp few noise normal fits small]

theorem roundElement_narrowed (inputArray : Nat → F) (index : Nat) (noise : BitVec 32) :
    (roundElement fp inputArray precision index noise : BitVec width) =
      BitVec.ofInt width (roundElement fp inputArray precision index noise : BitVec 32).toInt := by
  have narrowed (x : F) (fractionalMask : BitVec 32) :
      (processSingleStochasticRound fp width x noise precision fractionalMask).value =
        BitVec.ofInt width
          (processSingleStochasticRound fp 32 x noise precision fractionalMask).value.toInt := by
    simp only [processSingleStochasticRound, BitVec.ofInt_toInt]
  by_cases zero : biased (fp.toBits (inputArray index)) = 0
  · simp [roundElement, process_isZero, zero]
  · simp [roundElement, process_isZero, zero, narrowed]

theorem process_infinite (few : precision ≤ 31) {x : F} (noise : BitVec 32)
    (infinite : biased (fp.toBits x) = 255) :
    (processSingleStochasticRound fp width x noise precision (1#32 <<< precision - 1#32)).value =
      0 := by
  have left : ¬ 0 ≤ 150 - (precision : Int) - biased (fp.toBits x) := by omega
  have guarded : ¬ -32 < 150 - (precision : Int) - biased (fp.toBits x) := by omega
  have shifted (mantissa : BitVec 32) :
      calculateScaledFixedValue mantissa (150 - (precision : Int) - biased (fp.toBits x)) = 0 := by
    simp only [calculateScaledFixedValue, if_neg left, if_neg guarded]
  have random := Nat.mod_lt noise.toNat (Nat.two_pow_pos precision)
  have cleared : (0 : BitVec 32).toNat = 0 := rfl
  have magnitude := roundedMagnitude_toNat 0 noise few
  rw [cleared, Nat.zero_add, Nat.div_eq_of_lt random] at magnitude
  have sign := signed_toInt (fp.toBits x) (lt_of_eq_of_lt magnitude (by decide))
  rw [magnitude] at sign
  simp only [processSingleStochasticRound, bitShift_toInt _ few, shifted]
  rw [sign]
  simp

theorem roundElement_infinite (few : precision ≤ 31) {inputArray : Nat → F} {index : Nat}
    (noise : BitVec 32) (infinite : biased (fp.toBits (inputArray index)) = 255) :
    roundElement fp inputArray precision index noise = (0 : BitVec width) := by
  simp [roundElement, process_isZero, infinite, process_infinite fp few noise infinite]

end Process

end NpuMatmul
