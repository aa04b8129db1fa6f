import Mathlib.Algebra.Order.Field.Power
import Mathlib.Data.Int.Log
import Mathlib.Data.Rat.Floor
import Mathlib.Tactic.FieldSimp
import Mathlib.Tactic.Linarith
import Mathlib.Tactic.NormNum
import Mathlib.Tactic.Positivity
import Mathlib.Tactic.Ring

set_option autoImplicit false

namespace Binary32

def negative (bits : BitVec 32) : Bool := bits.msb

def biased (bits : BitVec 32) : Nat := bits.toNat / 2 ^ 23 % 2 ^ 8

def fraction (bits : BitVec 32) : Nat := bits.toNat % 2 ^ 23

def significand (bits : BitVec 32) : Nat :=
  if biased bits = 0 then fraction bits else 2 ^ 23 + fraction bits

def magnitude (bits : BitVec 32) : ℚ :=
  significand bits * 2 ^ ((max (biased bits) 1 : Nat) - 150 : Int)

-- A word with the exponent field 255 has no value; the formula is only read below it.
def value (bits : BitVec 32) : ℚ :=
  if negative bits then -magnitude bits else magnitude bits

def pack (sign : Bool) (exponent fraction : Nat) : BitVec 32 :=
  BitVec.ofNat 32 (sign.toNat * 2 ^ 31 + exponent * 2 ^ 23 + fraction)

-- The word of a rational: exact where it is a binary32 number, cut toward zero elsewhere.
def encode (q : ℚ) : BitVec 32 :=
  if |q| < 2 ^ (-126 : Int) then pack (decide (q < 0)) 0 ⌊|q| * 2 ^ 149⌋₊
  else if 2 ^ 128 ≤ |q| then pack (decide (q < 0)) 255 0
  else
    pack (decide (q < 0)) (Int.log 2 |q| + 127).toNat
      (⌊|q| * 2 ^ (23 - Int.log 2 |q|)⌋₊ - 2 ^ 23)

theorem pack_toNat (sign : Bool) {exponent part : Nat} (small : exponent < 2 ^ 8)
    (below : part < 2 ^ 23) :
    (pack sign exponent part).toNat = sign.toNat * 2 ^ 31 + exponent * 2 ^ 23 + part := by
  have flag := sign.toNat_le
  rw [pack, BitVec.toNat_ofNat]
  omega

@[simp] theorem biased_pack (sign : Bool) {exponent part : Nat} (small : exponent < 2 ^ 8)
    (below : part < 2 ^ 23) : biased (pack sign exponent part) = exponent := by
  rw [biased, pack_toNat sign small below]
  omega

@[simp] theorem fraction_pack (sign : Bool) {exponent part : Nat} (small : exponent < 2 ^ 8)
    (below : part < 2 ^ 23) : fraction (pack sign exponent part) = part := by
  rw [fraction, pack_toNat sign small below]
  omega

@[simp] theorem negative_pack (sign : Bool) {exponent part : Nat} (small : exponent < 2 ^ 8)
    (below : part < 2 ^ 23) : negative (pack sign exponent part) = sign := by
  rw [negative, BitVec.msb_eq_decide, pack_toNat sign small below]
  cases sign <;> simp <;> omega

theorem biased_lt (bits : BitVec 32) : biased bits < 2 ^ 8 :=
  Nat.mod_lt _ (by decide)

theorem fraction_lt (bits : BitVec 32) : fraction bits < 2 ^ 23 :=
  Nat.mod_lt _ (by decide)

theorem significand_lt (bits : BitVec 32) : significand bits < 2 ^ 24 := by
  have below := fraction_lt bits
  unfold significand
  split <;> omega

theorem pow_split (e k : Int) : (2 : ℚ) ^ (e + k) = 2 ^ e * 2 ^ k :=
  zpow_add₀ (by norm_num) e k

theorem pow_pos' (e : Int) : (0 : ℚ) < 2 ^ e := by positivity

theorem pow_le {e k : Int} (le : e ≤ k) : (2 : ℚ) ^ e ≤ 2 ^ k :=
  zpow_le_zpow_right₀ (by norm_num) le

theorem log_bounds {q : ℚ} (positive : 0 < |q|) :
    (2 : ℚ) ^ Int.log 2 |q| ≤ |q| ∧ |q| < 2 ^ (Int.log 2 |q| + 1) :=
  ⟨Int.zpow_log_le_self (by norm_num) positive, Int.lt_zpow_succ_log_self (by norm_num) _⟩

theorem significand_bounds {q : ℚ} (positive : 0 < |q|) :
    2 ^ 23 ≤ ⌊|q| * 2 ^ (23 - Int.log 2 |q|)⌋₊ ∧ ⌊|q| * 2 ^ (23 - Int.log 2 |q|)⌋₊ < 2 ^ 24 := by
  obtain ⟨lower, upper⟩ := log_bounds positive
  have scaled := pow_pos' (23 - Int.log 2 |q|)
  constructor
  · apply Nat.le_floor
    calc ((2 ^ 23 : Nat) : ℚ) = 2 ^ Int.log 2 |q| * 2 ^ (23 - Int.log 2 |q|) := by
          rw [← pow_split]
          norm_num
      _ ≤ _ := by gcongr
  · rw [Nat.floor_lt (by positivity)]
    calc |q| * 2 ^ (23 - Int.log 2 |q|)
        < 2 ^ (Int.log 2 |q| + 1) * 2 ^ (23 - Int.log 2 |q|) := by gcongr
      _ = ((2 ^ 24 : Nat) : ℚ) := by
          have exponent : Int.log 2 |q| + 1 + (23 - Int.log 2 |q|) = 24 := by ring
          rw [← pow_split, exponent]
          norm_num

theorem log_range {q : ℚ} (normal : 2 ^ (-126 : Int) ≤ |q|) (finite : |q| < 2 ^ 128) :
    -126 ≤ Int.log 2 |q| ∧ Int.log 2 |q| < 128 := by
  have positive : 0 < |q| := lt_of_lt_of_le (pow_pos' _) normal
  constructor
  · exact (Int.zpow_le_iff_le_log (by norm_num) positive).mp (by exact_mod_cast normal)
  · exact (Int.lt_zpow_iff_log_lt (by norm_num) positive).mp (by exact_mod_cast finite)

theorem subnormal_fraction {q : ℚ} (small : |q| < 2 ^ (-126 : Int)) :
    ⌊|q| * 2 ^ 149⌋₊ < 2 ^ 23 := by
  rw [Nat.floor_lt (by positivity)]
  calc |q| * 2 ^ 149 < 2 ^ (-126 : Int) * 2 ^ 149 := by gcongr
    _ = ((2 ^ 23 : Nat) : ℚ) := by norm_num

theorem encode_subnormal {q : ℚ} (small : |q| < 2 ^ (-126 : Int)) : biased (encode q) = 0 := by
  rw [encode, if_pos small]
  exact biased_pack _ (by decide) (subnormal_fraction small)

theorem encode_normal {q : ℚ} (normal : 2 ^ (-126 : Int) ≤ |q|) (finite : |q| < 2 ^ 128) :
    encode q = pack (decide (q < 0)) (Int.log 2 |q| + 127).toNat
      (⌊|q| * 2 ^ (23 - Int.log 2 |q|)⌋₊ - 2 ^ 23) := by
  rw [encode, if_neg (not_lt.mpr normal), if_neg (not_le.mpr finite)]

theorem biased_encode {q : ℚ} (normal : 2 ^ (-126 : Int) ≤ |q|) (finite : |q| < 2 ^ 128) :
    (biased (encode q) : Int) = Int.log 2 |q| + 127 := by
  have range := log_range normal finite
  have bounds := significand_bounds (lt_of_lt_of_le (pow_pos' _) normal)
  rw [encode_normal normal finite, biased_pack _ (by omega) (by omega)]
  omega

theorem fraction_encode {q : ℚ} (normal : 2 ^ (-126 : Int) ≤ |q|) (finite : |q| < 2 ^ 128) :
    fraction (encode q) + 2 ^ 23 = ⌊|q| * 2 ^ (23 - Int.log 2 |q|)⌋₊ := by
  have range := log_range normal finite
  have bounds := significand_bounds (lt_of_lt_of_le (pow_pos' _) normal)
  rw [encode_normal normal finite, fraction_pack _ (by omega) (by omega)]
  omega

theorem biased_encode_eq_zero {q : ℚ} (finite : |q| < 2 ^ 128) :
    biased (encode q) = 0 ↔ |q| < 2 ^ (-126 : Int) := by
  constructor
  · intro zero
    by_contra normal
    have field := biased_encode (not_lt.mp normal) finite
    have range := log_range (not_lt.mp normal) finite
    omega
  · exact encode_subnormal

theorem biased_encode_bounds {q : ℚ} (normal : 2 ^ (-126 : Int) ≤ |q|) (finite : |q| < 2 ^ 128) :
    (2 : ℚ) ^ ((biased (encode q) : Int) - 127) ≤ |q| ∧
      |q| < 2 ^ ((biased (encode q) : Int) - 126) := by
  have bounds := log_bounds (lt_of_lt_of_le (pow_pos' _) normal)
  rw [biased_encode normal finite]
  have low : Int.log 2 |q| + 127 - 127 = Int.log 2 |q| := by ring
  have high : Int.log 2 |q| + 127 - 126 = Int.log 2 |q| + 1 := by ring
  rw [low, high]
  exact bounds

theorem encode_lt_pow {q : ℚ} (finite : |q| < 2 ^ 128) :
    |q| < 2 ^ (((max (biased (encode q)) 1 : Nat) : Int) - 126) := by
  by_cases normal : |q| < 2 ^ (-126 : Int)
  · apply lt_of_lt_of_le normal
    apply pow_le
    omega
  · apply lt_of_lt_of_le (biased_encode_bounds (not_lt.mp normal) finite).2
    apply pow_le
    omega

theorem negative_encode {q : ℚ} (finite : |q| < 2 ^ 128) : negative (encode q) = decide (q < 0) := by
  by_cases normal : |q| < 2 ^ (-126 : Int)
  · rw [encode, if_pos normal]
    exact negative_pack _ (by decide) (subnormal_fraction normal)
  · have range := log_range (not_lt.mp normal) finite
    have bounds := significand_bounds (lt_of_lt_of_le (pow_pos' _) (not_lt.mp normal))
    rw [encode_normal (not_lt.mp normal) finite]
    exact negative_pack _ (by omega) (by omega)

theorem abs_value (bits : BitVec 32) : |value bits| = magnitude bits := by
  have nonneg : 0 ≤ magnitude bits := by
    unfold magnitude
    positivity
  unfold value
  split
  · rw [abs_neg, abs_of_nonneg nonneg]
  · exact abs_of_nonneg nonneg

theorem abs_value_lt {bits : BitVec 32} (finite : biased bits ≠ 255) : |value bits| < 2 ^ 128 := by
  have below := biased_lt bits
  have part : (significand bits : ℚ) < 2 ^ 24 := by exact_mod_cast significand_lt bits
  rw [abs_value, magnitude]
  calc (significand bits : ℚ) * 2 ^ (((max (biased bits) 1 : Nat) : Int) - 150)
      < 2 ^ 24 * 2 ^ (((max (biased bits) 1 : Nat) : Int) - 150) := by
        have scale := pow_pos' (((max (biased bits) 1 : Nat) : Int) - 150)
        gcongr
    _ ≤ 2 ^ 24 * 2 ^ (104 : Int) := by
        have le : (2 : ℚ) ^ (((max (biased bits) 1 : Nat) : Int) - 150) ≤ 2 ^ (104 : Int) :=
          pow_le (by omega)
        gcongr
    _ = 2 ^ 128 := by norm_num

theorem magnitude_bounds {bits : BitVec 32} (normal : biased bits ≠ 0) :
    (2 : ℚ) ^ ((biased bits : Int) - 127) ≤ magnitude bits ∧
      magnitude bits < 2 ^ ((biased bits : Int) - 126) := by
  have part : (fraction bits : ℚ) < 8388608 := by exact_mod_cast fraction_lt bits
  have nonneg : (0 : ℚ) ≤ fraction bits := Nat.cast_nonneg _
  have scale := pow_pos' ((biased bits : Int) - 150)
  have field : ((max (biased bits) 1 : Nat) - 150 : Int) = (biased bits : Int) - 150 := by omega
  have low : (biased bits : Int) - 127 = 23 + ((biased bits : Int) - 150) := by ring
  have high : (biased bits : Int) - 126 = 24 + ((biased bits : Int) - 150) := by ring
  rw [magnitude, significand, if_neg normal, field, low, high, pow_split, pow_split]
  push_cast
  constructor
  · apply mul_le_mul_of_nonneg_right _ scale.le
    norm_num
  · apply mul_lt_mul_of_pos_right _ scale
    linarith

theorem biased_encode_value {bits : BitVec 32} (finite : biased bits ≠ 255) :
    biased (encode (value bits)) = biased bits := by
  by_cases subnormal : biased bits = 0
  · rw [subnormal]
    apply encode_subnormal
    have part : (fraction bits : ℚ) < 2 ^ 23 := by exact_mod_cast fraction_lt bits
    rw [abs_value, magnitude, significand, if_pos subnormal, subnormal]
    calc (fraction bits : ℚ) * 2 ^ ((max 0 1 : Nat) - 150 : Int)
        < 2 ^ 23 * 2 ^ ((max 0 1 : Nat) - 150 : Int) := by gcongr
      _ = 2 ^ (-126 : Int) := by norm_num
  · obtain ⟨lower, upper⟩ := magnitude_bounds subnormal
    have below := biased_lt bits
    rw [← abs_value] at lower upper
    have normal : (2 : ℚ) ^ (-126 : Int) ≤ |value bits| :=
      le_trans (pow_le (by omega)) lower
    have positive : 0 < |value bits| := lt_of_lt_of_le (pow_pos' _) normal
    have field := biased_encode normal (abs_value_lt finite)
    have least : (biased bits : Int) - 127 ≤ Int.log 2 |value bits| :=
      (Int.zpow_le_iff_le_log (by norm_num) positive).mp (by exact_mod_cast lower)
    have most : Int.log 2 |value bits| < (biased bits : Int) - 126 :=
      (Int.lt_zpow_iff_log_lt (by norm_num) positive).mp (by exact_mod_cast upper)
    omega

theorem value_exponent {shift : Int} (low : -126 ≤ shift) (high : shift ≤ 127) :
    value (BitVec.ofInt 32 ((127 + shift) * 2 ^ 23)) = 2 ^ shift := by
  have word : BitVec.ofInt 32 ((127 + shift) * 2 ^ 23) = pack false (127 + shift).toNat 0 := by
    apply BitVec.eq_of_toNat_eq
    rw [pack_toNat _ (by omega) (by omega), BitVec.toNat_ofInt, Bool.toNat_false]
    omega
  have field : biased (pack false (127 + shift).toNat 0) = (127 + shift).toNat :=
    biased_pack _ (by omega) (by omega)
  have part : fraction (pack false (127 + shift).toNat 0) = 0 :=
    fraction_pack _ (by omega) (by omega)
  have sign : negative (pack false (127 + shift).toNat 0) = false :=
    negative_pack _ (by omega) (by omega)
  have exponent : (((max (127 + shift).toNat 1 : Nat) : Int) - 150) = -23 + shift := by omega
  have nonzero : (127 + shift).toNat ≠ 0 := by omega
  rw [word, value, sign, magnitude, significand, field, part, exponent, pow_split, if_neg nonzero]
  have cancel : ((2 ^ 23 + 0 : Nat) : ℚ) * 2 ^ (-23 : Int) = 1 := by norm_num
  rw [← mul_assoc, cancel, one_mul]
  simp

end Binary32
