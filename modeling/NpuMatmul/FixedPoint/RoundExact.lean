import NpuMatmul.FixedPoint.RoundBits

set_option autoImplicit false

namespace NpuMatmul

open Binary32

theorem floor_scaled_lt {q : ℚ} (small : |q| < 1) (precision : Nat) :
    ⌊|q| * 2 ^ precision⌋₊ < 2 ^ precision := by
  rw [Nat.floor_lt (by positivity)]
  push_cast
  have scale : (0 : ℚ) < 2 ^ precision := by positivity
  nlinarith

theorem roundingCarry_le_one {q : ℚ} (small : |q| < 1) (noise : BitVec 32) (precision : Nat) :
    roundingCarry q noise precision ≤ 1 := by
  have scaled := floor_scaled_lt small precision
  have random := Nat.mod_lt noise.toNat (Nat.two_pow_pos precision)
  unfold roundingCarry
  apply Nat.lt_succ_iff.mp
  rw [Nat.div_lt_iff_lt_mul (Nat.two_pow_pos precision)]
  omega

theorem roundedInteger_zero (noise : BitVec 32) (precision : Nat) :
    roundedInteger 0 noise precision = 0 := by
  have random := Nat.mod_lt noise.toNat (Nat.two_pow_pos precision)
  simp [roundedInteger, roundingCarry, Nat.div_eq_of_lt random]

theorem abs_roundedInteger_le_one {q : ℚ} (small : |q| < 1) (noise : BitVec 32) (precision : Nat) :
    |roundedInteger q noise precision| ≤ 1 := by
  have carry := roundingCarry_le_one small noise precision
  unfold roundedInteger
  rw [abs_le]
  split <;> omega

theorem roundingCarry_subnormal {q : ℚ} (small : |q| < 2 ^ (-126 : Int)) (noise : BitVec 32)
    {precision : Nat} (few : precision ≤ 126) : roundingCarry q noise precision = 0 := by
  have scaled : ⌊|q| * 2 ^ precision⌋₊ = 0 := by
    rw [Nat.floor_eq_zero]
    calc |q| * 2 ^ precision < 2 ^ (-126 : Int) * 2 ^ precision := by gcongr
      _ = 2 ^ (-126 + (precision : Int)) := by rw [pow_split, zpow_natCast]
      _ ≤ 2 ^ (0 : Int) := pow_le (by omega)
      _ = 1 := by norm_num
  have random := Nat.mod_lt noise.toNat (Nat.two_pow_pos precision)
  unfold roundingCarry
  rw [scaled, Nat.zero_add]
  exact Nat.div_eq_of_lt random

theorem biased_encode_small {q : ℚ} (normal : 2 ^ (-126 : Int) ≤ |q|) (small : |q| < 1) :
    biased (encode q) ≤ 126 := by
  have lower := (biased_encode_bounds normal (lt_trans small (by norm_num))).1
  by_contra large
  have unit : (2 : ℚ) ^ (0 : Int) ≤ 2 ^ ((biased (encode q) : Int) - 127) := pow_le (by omega)
  rw [zpow_zero] at unit
  linarith

theorem floor_scaled {q : ℚ} (normal : 2 ^ (-126 : Int) ≤ |q|) (small : |q| < 1) {precision : Nat}
    (few : precision ≤ 23) :
    (2 ^ 23 + fraction (encode q)) / 2 ^ (150 - precision - biased (encode q)) =
      ⌊|q| * 2 ^ precision⌋₊ := by
  have finite : |q| < 2 ^ 128 := lt_trans small (by norm_num)
  have field := biased_encode normal finite
  have below : Int.log 2 |q| < 0 :=
    (Int.lt_zpow_iff_log_lt (by norm_num) (lt_of_lt_of_le (pow_pos' _) normal)).mp
      (by simpa using small)
  have part := fraction_encode normal finite
  rw [Nat.add_comm, part, ← Nat.floor_div_natCast]
  congr 1
  have exponent : 23 - Int.log 2 |q| =
      precision + ((150 - precision - biased (encode q) : Nat) : Int) := by omega
  rw [exponent, pow_split, zpow_natCast, zpow_natCast]
  push_cast
  field_simp

theorem floor_encode {q : ℚ} (normal : 2 ^ (-126 : Int) ≤ |q|) (small : |q| < 1) {precision : Nat}
    (few : precision ≤ 23) :
    ⌊|value (encode q)| * 2 ^ precision⌋₊ = ⌊|q| * 2 ^ precision⌋₊ := by
  have nonzero : biased (encode q) ≠ 0 := by
    intro zero
    rw [biased_encode_eq_zero (lt_trans small (by norm_num))] at zero
    linarith
  have below := biased_encode_small normal small
  rw [abs_value, floor_scaled_right nonzero (by omega), floor_scaled normal small few]

theorem roundElement_exact (host : Unspecified) (width : Nat) {precision : Nat} (few : precision ≤ 23)
    (inputArray : Nat → ℚ) (index : Nat) (noise : BitVec 32) (small : |inputArray index| < 1) :
    roundElement (exact host) inputArray precision index noise =
      BitVec.ofInt width (roundedInteger (inputArray index) noise precision) := by
  have finite : |inputArray index| < 2 ^ 128 := lt_trans small (by norm_num)
  by_cases normal : 2 ^ (-126 : Int) ≤ |inputArray index|
  · have field : ¬ biased (encode (inputArray index)) = 0 := by
      rw [biased_encode_eq_zero finite]
      exact not_lt.mpr normal
    have below := biased_encode_small normal small
    have carry := roundingCarry_le_one small noise precision
    have sign : value (encode (inputArray index)) < 0 ↔ inputArray index < 0 := by
      rw [value_neg_iff field, negative_encode finite, decide_eq_true_iff]
    rw [roundElement_normal (exact host) (by omega) noise field (by simp only [exact_toBits]; omega)]
    · simp only [exact_toBits, roundedInteger, roundingCarry, sign, floor_encode normal small few]
    · simp only [exact_toBits, roundingCarry, floor_encode normal small few] at *
      omega
  · have lost : roundingCarry (inputArray index) noise precision = 0 :=
      roundingCarry_subnormal (not_le.mp normal) noise (by omega)
    rw [roundElement_zero (exact host) noise (encode_subnormal (not_le.mp normal))]
    simp [roundedInteger, lost]

end NpuMatmul
