import NpuMatmul.FixedPoint.FittedExponents
import NpuMatmul.FixedPoint.HostFloat
import NpuMatmul.Pipeline.KernelSpec

set_option autoImplicit false

namespace NpuMatmul

open Loop Binary32

-- One line, a row of A or a column of B, on the processor.
section Line

variable (K : Nat) (line : Nat → FiniteFloat)

def hostExponent : Int := fieldExponent K fun k => (line k).bits

-- The mean as fit_exponent stores it: the float sum over the float length.
def hostMean (casts : OpenCasts) : Float32.Model :=
  (forLoop K (fun k (stats : BlockStats Float32.Model) => stats.scan (hostFloat casts) (line k).host)
    (.empty (hostFloat casts))).mean (hostFloat casts)

def hostScaled (k : Nat) : Float32.Model := (line k).host.mul (ofWord (power (-hostExponent K line)))

-- The integer the stochastic rounding gives for an element, from the element alone: exponents from
-- 127 on scale by 0 or by an infinity.
def hostBit (k : Nat) : Int :=
  if hostExponent K line ≤ 126 then
    roundedInteger ((line k).toRat * 2 ^ (-hostExponent K line)) (elementNoise K k) 8
  else 0

def hostRounded (casts : OpenCasts) (k : Nat) : Int :=
  (roundElement (hostFloat casts) (hostScaled K line) 8 k (elementNoise K k) : BitVec 32).toInt

def hostRoundedMean (casts : OpenCasts) : Float32.Model :=
  roundAway ((hostMean K line casts).mul (ofWord (power (-hostExponent K line + 8))))

def scaledMean (casts : OpenCasts) : ℚ :=
  value (word (hostMean K line casts)) * 2 ^ (-hostExponent K line + 8)

def hostCentre (casts : OpenCasts) : Int := roundHalfAway (scaledMean K line casts)

theorem hostExponent_range : -127 ≤ hostExponent K line ∧ hostExponent K line ≤ 128 :=
  fieldExponent_range fun k _ => (line k).finite

variable {K} in
theorem abs_scaled_lt_two {k : Nat} (below : k < K) :
    magnitude (line k).bits * 2 ^ (-hostExponent K line) < 2 := by
  have scale := pow_pos' (-hostExponent K line)
  rw [← abs_value]
  by_cases normal : 0 < maxField K fun k => (line k).bits
  · have upper : |value (line k).bits| < 2 ^ hostExponent K line := fieldExponent_upper normal below
    calc |value (line k).bits| * 2 ^ (-hostExponent K line)
        < 2 ^ hostExponent K line * 2 ^ (-hostExponent K line) := by gcongr
      _ = 1 := by rw [← pow_split]; simp
      _ < 2 := by norm_num
  · have none : biased (line k).bits = 0 := by
      have le := le_maxField (fun k => (line k).bits) below
      omega
    have lowest : hostExponent K line = -127 := if_neg normal
    have small := abs_value_subnormal none
    rw [lowest]
    calc |value (line k).bits| * 2 ^ (- -127 : Int)
        < 2 ^ (-126 : Int) * 2 ^ (- -127 : Int) := by gcongr
      _ = 2 := by norm_num

theorem roundedInteger_small {q : ℚ} (small : |q| ≤ 2 ^ (-126 : Int)) (noise : BitVec 32) :
    roundedInteger q noise 8 = 0 := by
  have lost : ⌊|q| * 2 ^ 8⌋₊ = 0 := by
    rw [Nat.floor_eq_zero]
    calc |q| * 2 ^ 8 ≤ 2 ^ (-126 : Int) * 2 ^ 8 := by gcongr
      _ < 1 := by norm_num
  have random := Nat.mod_lt noise.toNat (Nat.two_pow_pos 8)
  simp [roundedInteger, roundingCarry, lost, Nat.div_eq_of_lt random]

theorem roundingCarry_lt_three {q : ℚ} (small : |q| < 2) (noise : BitVec 32) :
    roundingCarry q noise 8 < 3 := by
  have floor : ⌊|q| * 2 ^ 8⌋₊ < 512 := by
    rw [Nat.floor_lt (by positivity)]
    push_cast
    linarith
  have random := Nat.mod_lt noise.toNat (Nat.two_pow_pos 8)
  unfold roundingCarry
  omega

variable {K} in
theorem abs_hostBit_le {k : Nat} (below : k < K) : |hostBit K line k| ≤ 2 := by
  have carry := roundingCarry_lt_three (q := (line k).toRat * 2 ^ (-hostExponent K line)) (by
    rw [abs_mul, abs_of_pos (pow_pos' _), FiniteFloat.toRat, abs_value]
    exact abs_scaled_lt_two line below) (elementNoise K k)
  rw [abs_le]
  unfold hostBit roundedInteger
  split
  · split <;> omega
  · omega

theorem roundElement_small (casts : OpenCasts) (width : Nat) {inputArray : Nat → Float32.Model}
    {index : Nat} (noise : BitVec 32)
    (small : |value (word (inputArray index))| < 2) :
    roundElement (hostFloat casts) inputArray 8 index noise =
      BitVec.ofInt width (roundedInteger (value (word (inputArray index))) noise 8) := by
  by_cases zero : biased (word (inputArray index)) = 0
  · rw [roundElement_zero (hostFloat casts) noise zero,
      roundedInteger_small (le_of_lt (abs_value_subnormal zero))]
    simp
  · have unit : biased (word (inputArray index)) ≤ 127 := by
      have lower := (magnitude_bounds zero).1
      rw [← abs_value] at lower
      have bound := exponent_lt (k := 1) (lt_of_le_of_lt lower (by simpa using small))
      omega
    have carry := roundingCarry_lt_three small noise
    exact roundElement_normal (hostFloat casts) (by decide) noise zero
      (by simp only [hostFloat_toBits]; omega) (by simp only [hostFloat_toBits]; omega)

variable {K} in
theorem roundedInteger_scaled {k : Nat} (below : k < K) (scale : hostExponent K line ≤ 126)
    (noise : BitVec 32) :
    |value (word (hostScaled K line k))| < 2 ∧
      roundedInteger (value (word (hostScaled K line k))) noise 8 =
        roundedInteger ((line k).toRat * 2 ^ (-hostExponent K line)) noise 8 := by
  have range := hostExponent_range K line
  have finite : biased (word (line k).host) ≠ 255 := by
    rw [word_host]
    exact (line k).finite
  have here : hostScaled K line k = scaled (line k).host false (-hostExponent K line) := by
    rw [hostScaled, scaled, power_inside (by omega) (by omega)]
  have small := abs_scaled_lt_two line below
  rw [FiniteFloat.toRat, here]
  rw [← word_host] at small ⊢
  by_cases above : 2 ^ (-126 : Int) ≤ magnitude (word (line k).host) * 2 ^ (-hostExponent K line)
  · have most := lt_trans small (by norm_num : (2 : ℚ) < 2 ^ (128 : Int))
    obtain ⟨_, _, _, size⟩ :=
      scaled_normal (line k).host false (by omega) (by omega) finite above most
    have whole := scaled_value (line k).host false (by omega) (by omega) finite above most
    refine ⟨?_, by rw [whole]; rfl⟩
    rw [abs_value, size]
    exact small
  · obtain ⟨_, size⟩ :=
      scaled_tiny (line k).host false (by omega) (by omega) finite (not_le.mp above)
    have tiny : |value (word (line k).host) * 2 ^ (-hostExponent K line)| ≤ 2 ^ (-126 : Int) := by
      rw [abs_mul, abs_of_pos (pow_pos' _), abs_value]
      exact le_of_lt (not_le.mp above)
    rw [← abs_value] at size
    exact ⟨lt_of_le_of_lt size (by norm_num),
      by rw [roundedInteger_small size, roundedInteger_small tiny]⟩

variable {K} in
theorem roundElement_hostBit (casts : OpenCasts) (width : Nat) {k : Nat} (below : k < K) :
    roundElement (hostFloat casts) (hostScaled K line) 8 k (elementNoise K k) =
      BitVec.ofInt width (hostBit K line k) := by
  have range := hostExponent_range K line
  by_cases scale : hostExponent K line ≤ 126
  · obtain ⟨small, same⟩ := roundedInteger_scaled line below scale (elementNoise K k)
    rw [roundElement_small casts width _ small, hostBit, if_pos scale, same]
  · rw [hostBit, if_neg scale]
    by_cases lost : hostExponent K line = 127
    · have none : significand (word (ofWord (power (-hostExponent K line)))) = 0 := by
        rw [lost, power_inside (by decide) (by decide),
          word_signedPower false (by decide) (by decide)]
        decide
      have finite : biased (word (line k).host) ≠ 255 := by
        rw [word_host]
        exact (line k).finite
      have zero : biased (word (hostScaled K line k)) = 0 := by
        rw [hostScaled, mul_zero_word finite none]
        exact biased_pack _ (by decide) (by decide)
      rw [roundElement_zero (hostFloat casts) _ zero]
      simp
    · have special : biased (word (hostScaled K line k)) = 255 := by
        have largest : hostExponent K line = 128 := by omega
        apply mul_special
        right
        rw [largest, power_below (by decide) (by decide),
          word_signedPower true (by decide) (by decide)]
        rfl
      rw [roundElement_infinite (hostFloat casts) (by decide) _ special]
      simp

variable {K} in
theorem hostRounded_bit (casts : OpenCasts) {k : Nat} (below : k < K) :
    hostRounded K line casts k = hostBit K line k := by
  have small := abs_hostBit_le line below
  rw [abs_le] at small
  rw [hostRounded, roundElement_hostBit line casts 32 below]
  exact BitVec.toInt_ofInt_eq_self (by decide) (by omega) (by omega)

end Line

section Mean

variable {x : Float32.Model} {shift : Int}

theorem roundHalfAway_small {q : ℚ} (small : |q| < 1 / 2) : roundHalfAway q = 0 := by
  have near := roundHalfAway_near q
  rw [abs_le] at near
  rw [abs_lt] at small
  have lower : ((-1 : Int) : ℚ) < roundHalfAway q := by
    push_cast
    linarith
  have upper : (roundHalfAway q : ℚ) < ((1 : Int) : ℚ) := by
    push_cast
    linarith
  have least : -1 < roundHalfAway q := by exact_mod_cast lower
  have most : roundHalfAway q < 1 := by exact_mod_cast upper
  omega

theorem roundHalfAway_nonneg {q : ℚ} (nonneg : 0 ≤ q) : 0 ≤ roundHalfAway q := by
  rw [roundHalfAway, if_pos nonneg]
  apply Int.floor_nonneg.mpr
  linarith

theorem roundAway_scaled (finite : biased (word x) ≠ 255) (low : -126 ≤ shift) (high : shift ≤ 127) :
    (biased (word (roundAway (scaled x false shift))) ≠ 255 ∧
        truncated (word (roundAway (scaled x false shift))) =
          roundHalfAway (value (word x) * 2 ^ shift)) ∨
      (biased (word (roundAway (scaled x false shift))) = 255 ∧
        2 ^ (128 : Int) ≤ |value (word x) * 2 ^ shift|) := by
  have size : |value (word x) * 2 ^ shift| = magnitude (word x) * 2 ^ shift := by
    rw [abs_mul, abs_of_pos (pow_pos' _), abs_value]
  by_cases huge : 2 ^ (128 : Int) ≤ magnitude (word x) * 2 ^ shift
  · have infinite : biased (word (scaled x false shift)) = 255 := by
      rw [scaled_overflow x false low high finite huge]
      exact biased_pack _ (by decide) (by decide)
    right
    rw [roundAway_special infinite, size]
    exact ⟨infinite, huge⟩
  · left
    by_cases normal : 2 ^ (-126 : Int) ≤ magnitude (word x) * 2 ^ shift
    · have kept := (scaled_normal x false low high finite normal (not_le.mp huge)).2.1
      have whole := scaled_value x false low high finite normal (not_le.mp huge)
      obtain ⟨rounded, integer⟩ := roundAway_value kept
      rw [whole] at integer
      exact ⟨rounded, truncated_int integer⟩
    · obtain ⟨kept, tiny⟩ := scaled_tiny x false low high finite (not_le.mp normal)
      obtain ⟨rounded, integer⟩ := roundAway_value kept
      rw [← abs_value] at tiny
      rw [roundHalfAway_small (lt_of_le_of_lt tiny (by norm_num))] at integer
      have none : roundHalfAway (value (word x) * 2 ^ shift) = 0 := by
        apply roundHalfAway_small
        rw [size]
        exact lt_trans (not_le.mp normal) (by norm_num)
      rw [none]
      exact ⟨rounded, truncated_int integer⟩

-- From 129 on the scale is a tiny power of two under a minus sign: the product is of the other sign
-- than the mean, or lost.
theorem flipped_value (finite : biased (word x) ≠ 255) (low : 129 ≤ shift) (high : shift ≤ 135) :
    biased (word (x.mul (ofWord (power shift)))) ≠ 255 ∧
      (|value (word (x.mul (ofWord (power shift))))| ≤ 2 ^ (-126 : Int) ∨
        value (word (x.mul (ofWord (power shift)))) = -(value (word x) * 2 ^ (shift - 256))) := by
  rw [power_above low (by omega)]
  by_cases lost : shift = 129
  · have none : significand (word (ofWord (signedPower true (shift - 256)))) = 0 := by
      rw [lost, word_signedPower true (by decide) (by decide)]
      decide
    rw [mul_zero_word finite none, abs_value, magnitude, significand,
      biased_pack _ (by decide) (by decide), fraction_pack _ (by decide) (by decide)]
    norm_num
  · have small : magnitude (word x) * 2 ^ (shift - 256) < 2 ^ (128 : Int) := by
      have field := abs_value_lt_pow (word x)
      have bound : |value (word x)| < 2 ^ (128 : Int) :=
        lt_of_lt_of_le field (pow_le (by have below := biased_lt (word x); omega))
      have scale : (2 : ℚ) ^ (shift - 256) ≤ 2 ^ (0 : Int) := pow_le (by omega)
      rw [← abs_value]
      calc |value (word x)| * 2 ^ (shift - 256) ≤ |value (word x)| * 2 ^ (0 : Int) := by gcongr
        _ < 2 ^ (128 : Int) := by rw [zpow_zero, mul_one]; exact bound
    by_cases normal : 2 ^ (-126 : Int) ≤ magnitude (word x) * 2 ^ (shift - 256)
    · have kept := (scaled_normal x true (by omega) (by omega) finite normal small).2.1
      have whole := scaled_value x true (by omega) (by omega) finite normal small
      exact ⟨kept, .inr whole⟩
    · obtain ⟨kept, tiny⟩ := scaled_tiny x true (by omega) (by omega) finite (not_le.mp normal)
      rw [← abs_value] at tiny
      exact ⟨kept, .inl tiny⟩

theorem roundHalfAway_eq_zero {q : ℚ} : roundHalfAway q = 0 ↔ |q| < 1 / 2 := by
  constructor
  · intro zero
    rw [abs_lt]
    unfold roundHalfAway at zero
    split at zero
    next nonneg =>
      have upper := Int.lt_floor_add_one (q + 1 / 2)
      rw [zero] at upper
      push_cast at upper
      constructor <;> linarith
    next negative =>
      have upper := Int.lt_floor_add_one (-q + 1 / 2)
      have none : ⌊-q + 1 / 2⌋ = 0 := by omega
      rw [none] at upper
      push_cast at upper
      constructor <;> linarith
  · exact roundHalfAway_small

theorem roundAway_flipped (finite : biased (word x) ≠ 255) (low : 129 ≤ shift)
    (high : shift ≤ 135) :
    biased (word (roundAway (x.mul (ofWord (power shift))))) ≠ 255 ∧
      (truncated (word (roundAway (x.mul (ofWord (power shift))))) =
          roundHalfAway (value (word x) * 2 ^ shift) ↔ |value (word x) * 2 ^ shift| < 1 / 2) := by
  obtain ⟨kept, shape⟩ := flipped_value finite low high
  obtain ⟨rounded, integer⟩ := roundAway_value kept
  refine ⟨rounded, ?_⟩
  rw [truncated_int integer, ← roundHalfAway_eq_zero]
  have zero_of_small {q : ℚ} (small : |q| ≤ 2 ^ (-126 : Int)) : roundHalfAway q = 0 :=
    roundHalfAway_small (lt_of_le_of_lt small (by norm_num))
  have scale := pow_pos' shift
  have other := pow_pos' (shift - 256)
  constructor
  · intro same
    rcases shape with tiny | opposite
    · rw [← same, zero_of_small tiny]
    · rw [opposite, roundHalfAway_neg] at same
      by_cases sign : 0 ≤ value (word x)
      · have left := roundHalfAway_nonneg (mul_nonneg sign (le_of_lt scale))
        have right := roundHalfAway_nonneg (mul_nonneg sign (le_of_lt other))
        omega
      · have positive : 0 ≤ -value (word x) := by linarith
        have left := roundHalfAway_nonneg (mul_nonneg positive (le_of_lt scale))
        have right := roundHalfAway_nonneg (mul_nonneg positive (le_of_lt other))
        rw [neg_mul, roundHalfAway_neg] at left right
        omega
  · intro zero
    rw [zero]
    rcases shape with tiny | opposite
    · exact zero_of_small tiny
    · have small := roundHalfAway_eq_zero.mp zero
      rw [opposite, roundHalfAway_neg, roundHalfAway_small, neg_zero]
      rw [abs_mul, abs_of_pos other]
      rw [abs_mul, abs_of_pos scale] at small
      have shrunk : (2 : ℚ) ^ (shift - 256) ≤ 2 ^ shift := pow_le (by omega)
      calc |value (word x)| * 2 ^ (shift - 256) ≤ |value (word x)| * 2 ^ shift := by gcongr
        _ < 1 / 2 := small

theorem roundHalfAway_le {q : ℚ} {bound : Int} (nonneg : 0 ≤ bound) :
    roundHalfAway q ≤ bound ↔ q < bound + 1 / 2 := by
  have lowest : (0 : ℚ) ≤ bound := by exact_mod_cast nonneg
  unfold roundHalfAway
  split
  next positive =>
    rw [← Int.lt_add_one_iff, Int.floor_lt]
    push_cast
    constructor <;> intro below <;> linarith
  next negative =>
    have floor : 0 ≤ ⌊-q + 1 / 2⌋ := Int.floor_nonneg.mpr (by linarith)
    constructor
    · intro _
      linarith
    · intro _
      omega

theorem le_roundHalfAway {q : ℚ} {bound : Int} (nonpos : bound ≤ 0) :
    bound ≤ roundHalfAway q ↔ bound - 1 / 2 < q := by
  have mirrored := @roundHalfAway_le (-q) (-bound) (by omega)
  rw [roundHalfAway_neg] at mirrored
  push_cast at mirrored
  constructor
  · intro above
    have below := mirrored.mp (by omega)
    linarith
  · intro above
    have below := mirrored.mpr (by linarith)
    omega

end Mean

section Stored

variable {K : Nat} {line : Nat → FiniteFloat} (casts : OpenCasts) {width : Nat}
  {arrays : BlockArrays width Float32.Model} {values : Nat → Float32.Model} {r : Nat}

variable (line) in
theorem rowStats_line (same : ∀ k < K, values (r * K + k) = (line k).host) :
    (rowStats (hostFloat casts) values K r).exponent = hostExponent K line ∧
      (rowStats (hostFloat casts) values K r).mean (hostFloat casts) = hostMean K line casts := by
  have scans : rowStats (hostFloat casts) values K r =
      forLoop K (fun k (stats : BlockStats Float32.Model) =>
        stats.scan (hostFloat casts) (line k).host) (.empty (hostFloat casts)) := by
    apply forLoop_congr
    intro k stats within
    rw [same k within]
  rw [scans]
  refine ⟨?_, rfl⟩
  rw [BlockStats.exponent, scan_fields, hostExponent, fieldExponent]
  simp only [hostFloat_toBits, word_host]
  split <;> omega

theorem host_mantissa (stored : EncodedRow (hostFloat casts) arrays values K r)
    (same : ∀ k < K, values (r * K + k) = (line k).host) {k : Nat} (below : k < K) :
    arrays.mantissa (r * K + k) = BitVec.ofInt width (hostBit K line k) -
      castToSigned casts width (word (hostRoundedMean K line casts)) := by
  obtain ⟨exponent, mean⟩ := rowStats_line line casts same
  rw [stored.mantissa k below, exponent, mean, ← roundElement_hostBit line casts width below]
  have elements : roundElement (hostFloat casts) (fun k => (hostFloat casts).mul (values (r * K + k))
        (fastPow2 (hostFloat casts) (-hostExponent K line))) 8 k (elementNoise K k) =
      (roundElement (hostFloat casts) (hostScaled K line) 8 k (elementNoise K k) :
        BitVec width) := by
    simp only [roundElement, same k below]
    rfl
  rw [elements]
  rfl

end Stored

end NpuMatmul
