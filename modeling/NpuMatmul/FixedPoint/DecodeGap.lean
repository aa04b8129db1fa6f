import NpuMatmul.FixedPoint.RoundTrip

set_option autoImplicit false

namespace NpuMatmul

open Binary32

theorem exists_le_average {n : Nat} (positive : 0 < n) (values : Nat → ℚ) :
    ∃ i < n, values i ≤ average n values := by
  have size : (0 : ℚ) < n := by exact_mod_cast positive
  by_contra above
  push Not at above
  have total : ∑ _i ∈ Finset.range n, average n values < ∑ i ∈ Finset.range n, values i := by
    apply Finset.sum_lt_sum_of_nonempty (Finset.nonempty_range_iff.mpr (by omega))
    intro i member
    exact above i (Finset.mem_range.mp member)
  rw [Finset.sum_const, Finset.card_range, nsmul_eq_mul, average,
    mul_div_cancel₀ _ size.ne'] at total
  exact lt_irrefl _ total

theorem average_neg (n : Nat) (values : Nat → ℚ) :
    average n (fun i => -values i) = -average n values := by
  simp [average, neg_div]

theorem exists_ge_average {n : Nat} (positive : 0 < n) (values : Nat → ℚ) :
    ∃ i < n, average n values ≤ values i := by
  obtain ⟨i, within, below⟩ := exists_le_average positive fun i => -values i
  rw [average_neg] at below
  exact ⟨i, within, by linarith⟩

theorem roundedInteger_nonpos {q : ℚ} (negative : q < 0) (noise : BitVec 32) (precision : Nat) :
    roundedInteger q noise precision ≤ 0 := by
  rw [roundedInteger, if_pos negative]
  omega

theorem roundingCarry_eq_one {q : ℚ} {noise : BitVec 32} (small : |q| < 1)
    (noisy : noise.toNat % 2 ^ 8 = 99) :
    roundingCarry q noise 8 = if 157 ≤ |q| * 2 ^ 8 then 1 else 0 := by
  have floor : ⌊|q| * 2 ^ 8⌋₊ < 256 := by
    rw [Nat.floor_lt (by positivity)]
    push_cast
    linarith
  have least : 157 ≤ ⌊|q| * 2 ^ 8⌋₊ ↔ (157 : ℚ) ≤ |q| * 2 ^ 8 := by
    rw [Nat.le_floor_iff (by positivity)]
    norm_num
  rw [roundingCarry, noisy]
  split
  case isTrue large =>
    have large := least.mpr large
    omega
  case isFalse few =>
    have few : ¬ 157 ≤ ⌊|q| * 2 ^ 8⌋₊ := fun many => few (least.mp many)
    omega

namespace RoundTripInput

variable (input : RoundTripInput) (lane block offset : Nat)

def unit : ℚ := 2 ^ (input.used lane block - input.precision)

-- Decoding takes the step from the fitted exponent, which may be smaller.
def shrink : ℚ := 2 ^ (input.fitted lane block - input.used lane block)

-- An element, less what decoding keeps of the mean of its block.
def gap : ℚ :=
  input.element lane block offset - (1 - input.shrink lane block) * input.mean lane block

def residue : ℚ :=
  input.mean lane block - input.roundedMean lane block * input.unit lane block

def rounding : ℚ :=
  input.shrink lane block *
    (input.roundingBit lane block offset * input.unit lane block + input.residue lane block)

def Near : Prop :=
  |input.gap lane block offset - input.rounding lane block offset| ≤ 2 * input.unit lane block

variable {input lane block offset}

theorem unit_pos : 0 < input.unit lane block := pow_pos' _

theorem shrink_pos : 0 < input.shrink lane block := pow_pos' _

theorem decodeStep :
    (2 : ℚ) ^ (input.fitted lane block - input.precision) =
      input.shrink lane block * input.unit lane block := by
  rw [shrink, unit, ← pow_split]
  congr 1
  ring

theorem fittedPower :
    (2 : ℚ) ^ input.fitted lane block =
      input.shrink lane block * input.unit lane block * 2 ^ input.precision := by
  rw [← decodeStep, ← zpow_natCast, ← pow_split]
  congr 1
  ring

theorem abs_residue_le : |input.residue lane block| ≤ 1 / 2 * input.unit lane block :=
  rounded_residue _ _

theorem kept_error
    (unwrapped : (input.roundingBit lane block offset - input.roundedMean lane block).bmod
      (2 ^ input.type.width) =
        input.roundingBit lane block offset - input.roundedMean lane block) :
    input.element lane block offset - input.kept lane block offset =
      input.gap lane block offset - input.rounding lane block offset := by
  rw [kept, unwrapped, decodeStep, gap, rounding, residue]
  push_cast
  ring

theorem close_iff_near
    (unwrapped : (input.roundingBit lane block offset - input.roundedMean lane block).bmod
      (2 ^ input.type.width) =
        input.roundingBit lane block offset - input.roundedMean lane block) :
    |input.element lane block offset - input.kept lane block offset| ≤
        2 * 2 ^ (input.used lane block - input.precision) ↔
      input.Near lane block offset := by
  rw [kept_error unwrapped]
  rfl

theorem exists_beyond_mean (nonempty : 0 < input.shape.count block) :
    ∃ offset < input.shape.count block,
      input.mean lane block ≤ input.element lane block offset ∧ 0 ≤ input.mean lane block ∨
        input.element lane block offset ≤ input.mean lane block ∧ input.mean lane block ≤ 0 := by
  obtain nonneg | nonpos := le_total 0 (input.mean lane block)
  · obtain ⟨offset, within, above⟩ := exists_ge_average nonempty (input.element lane block)
    exact ⟨offset, within, .inl ⟨above, nonneg⟩⟩
  · obtain ⟨offset, within, under⟩ := exists_le_average nonempty (input.element lane block)
    exact ⟨offset, within, .inr ⟨under, nonpos⟩⟩

theorem meanSteps (lane block : Nat) :
    input.mean lane block * 2 ^ (-input.used lane block + (input.precision : Int)) *
      input.unit lane block = input.mean lane block := by
  have inverse : (2 : ℚ) ^ (-input.used lane block + (input.precision : Int)) *
      input.unit lane block = 1 := by
    rw [unit, ← pow_split]
    simp
  rw [mul_assoc, inverse, mul_one]

theorem roundedMean_small (small : |input.mean lane block| ≤ 66 * input.unit lane block) :
    |input.roundedMean lane block| ≤ 126 := by
  have unit := @unit_pos input lane block
  have steps : |input.mean lane block * 2 ^ (-input.used lane block + (input.precision : Int))| *
      input.unit lane block ≤ 66 * input.unit lane block := by
    rw [← abs_of_pos unit, ← abs_mul, abs_of_pos unit, meanSteps]
    exact small
  have few := le_of_mul_le_mul_right steps unit
  have rounded : |input.roundedMean lane block| ≤ 67 := by
    apply abs_roundHalfAway_le
    push_cast
    linarith
  omega

section Block

variable (valid : input.Valid) (below : lane < input.shape.lanes)
  (inside : block < input.shape.numBlocks)
include valid below inside

theorem shrink_le_one : input.shrink lane block ≤ 1 := by
  have order := valid.fitted_le_used below inside
  calc input.shrink lane block ≤ 2 ^ (0 : Int) := pow_le (by omega)
    _ = 1 := zpow_zero 2

theorem abs_rounding_le (within : offset < input.shape.count block) :
    |input.rounding lane block offset| ≤
      3 / 2 * input.shrink lane block * input.unit lane block := by
  have unit := @unit_pos input lane block
  have shrink := @shrink_pos input lane block
  have residue := @abs_residue_le input lane block
  have bit : |(input.roundingBit lane block offset : ℚ)| ≤ 1 := by
    exact_mod_cast abs_roundingBit_le_one valid below inside within
  have carried : |input.roundingBit lane block offset * input.unit lane block| ≤
      input.unit lane block := by
    rw [abs_mul, abs_of_pos unit]
    exact mul_le_of_le_one_left unit.le bit
  rw [rounding, abs_mul, abs_of_pos shrink]
  calc input.shrink lane block *
        |input.roundingBit lane block offset * input.unit lane block + input.residue lane block|
      ≤ input.shrink lane block * (3 / 2 * input.unit lane block) := by
        apply mul_le_mul_of_nonneg_left _ shrink.le
        have sum := abs_add_le (input.roundingBit lane block offset * input.unit lane block)
          (input.residue lane block)
        linarith
    _ = 3 / 2 * input.shrink lane block * input.unit lane block := by ring

theorem unwrapped_of_small (within : offset < input.shape.count block)
    (small : |input.roundedMean lane block| ≤ 126) :
    (input.roundingBit lane block offset - input.roundedMean lane block).bmod
        (2 ^ input.type.width) =
      input.roundingBit lane block offset - input.roundedMean lane block := by
  apply fits_bmod
  apply fits_small
  have bit := abs_roundingBit_le_one valid below inside within
  rw [abs_le] at small bit ⊢
  omega

theorem not_near_of_large (within : offset < input.shape.count block)
    (far : input.mean lane block ≤ input.element lane block offset ∧ 0 ≤ input.mean lane block ∨
      input.element lane block offset ≤ input.mean lane block ∧ input.mean lane block ≤ 0)
    (large : 66 * input.unit lane block < |input.mean lane block|) :
    ¬ input.Near lane block offset := by
  intro near
  have unit := @unit_pos input lane block
  have shrink := @shrink_pos input lane block
  have least := shrink_le_one valid below inside
  have rounding := abs_rounding_le valid below inside within
  have forced := valid.forced
  have mean : |input.mean lane block| < 256 * input.shrink lane block * input.unit lane block := by
    calc |input.mean lane block| < 2 ^ input.fitted lane block :=
          abs_mean_lt valid below inside (by omega)
      _ = input.shrink lane block * input.unit lane block * 2 ^ input.precision := fittedPower
      _ ≤ input.shrink lane block * input.unit lane block * 2 ^ 8 := by
          gcongr
          · norm_num
          · exact forced.2
      _ = 256 * input.shrink lane block * input.unit lane block := by ring
  have gap : input.shrink lane block * |input.mean lane block| ≤ |input.gap lane block offset| := by
    obtain ⟨above, nonneg⟩ | ⟨under, nonpos⟩ := far
    · rw [abs_of_nonneg nonneg, RoundTripInput.gap]
      apply le_trans _ (le_abs_self _)
      linarith
    · rw [abs_of_nonpos nonpos, RoundTripInput.gap]
      apply le_trans _ (neg_le_abs _)
      linarith
  have bound : |input.gap lane block offset| ≤
      2 * input.unit lane block + 3 / 2 * input.shrink lane block * input.unit lane block := by
    have sum := abs_sub_abs_le_abs_sub (input.gap lane block offset)
      (input.rounding lane block offset)
    rw [Near] at near
    linarith
  -- The shrink is above 66 / 256, so its share of the mean alone is above 17 units.
  have wide : 66 * input.unit lane block <
      256 * input.shrink lane block * input.unit lane block := large.trans mean
  have share : 66 / 256 < input.shrink lane block := by
    by_contra small
    push Not at small
    have product := mul_le_mul_of_nonneg_right small unit.le
    linarith
  have least' : 66 / 256 * (66 * input.unit lane block) ≤
      input.shrink lane block * |input.mean lane block| :=
    mul_le_mul share.le large.le (by positivity) shrink.le
  have most := mul_le_mul_of_nonneg_right least unit.le
  linarith

theorem kept_of_near
    (near : ∀ offset < input.shape.count block, input.Near lane block offset)
    (within : offset < input.shape.count block) : input.ElementKept lane block offset := by
  obtain ⟨beyond, early, far⟩ := @exists_beyond_mean input lane block (by omega)
  have small : |input.roundedMean lane block| ≤ 126 := by
    apply roundedMean_small
    by_contra large
    push Not at large
    exact not_near_of_large valid below inside early far large (near beyond early)
  constructor
  · apply fits_small
    omega
  · exact (close_iff_near (unwrapped_of_small valid below inside within small)).mpr
      (near offset within)

theorem firstBit (eight : input.precision = 8) (nonempty : 0 < input.shape.count block) :
    (157 * input.unit lane block ≤ |input.element lane block 0| ∧
        input.roundingBit lane block 0 = if input.element lane block 0 < 0 then -1 else 1) ∨
      (|input.element lane block 0| < 157 * input.unit lane block ∧
        input.roundingBit lane block 0 = 0) := by
  have unit := @unit_pos input lane block
  have scale := pow_pos' (-input.used lane block)
  have less := lt_of_lt_of_le (valid.upper below inside nonempty)
    (pow_le (valid.fitted_le_used below inside))
  have noisy : (elementNoise (input.shape.count block) 0).toNat % 2 ^ 8 = 99 := by
    rw [elementNoise_first]
    rfl
  have carry := roundingCarry_eq_one (scaled_lt_one less) noisy
  have steps : |input.element lane block 0 * 2 ^ (-input.used lane block)| * 2 ^ 8 *
      input.unit lane block = |input.element lane block 0| := by
    have inverse : (2 : ℚ) ^ (-input.used lane block) * (2 ^ 8 * input.unit lane block) = 1 := by
      rw [RoundTripInput.unit, eight, ← zpow_natCast, ← pow_split, ← pow_split]
      simp
    rw [abs_mul, abs_of_pos scale, mul_assoc, mul_assoc, inverse, mul_one]
  have sign : input.element lane block 0 * 2 ^ (-input.used lane block) < 0 ↔
      input.element lane block 0 < 0 := by
    constructor
    · exact fun negative => neg_of_mul_neg_left negative scale.le
    · exact fun negative => mul_neg_of_neg_of_pos negative scale
  have bit : input.roundingBit lane block 0 =
      if input.element lane block 0 < 0 then
        -(if 157 ≤ |input.element lane block 0 * 2 ^ (-input.used lane block)| * 2 ^ 8 then 1 else 0)
      else
        if 157 ≤ |input.element lane block 0 * 2 ^ (-input.used lane block)| * 2 ^ 8 then 1
        else 0 := by
    rw [roundingBit, eight, roundedInteger, carry]
    simp only [sign]
    split <;> split <;> rfl
  by_cases large : 157 ≤ |input.element lane block 0 * 2 ^ (-input.used lane block)| * 2 ^ 8
  · left
    rw [if_pos large] at bit
    refine ⟨?_, bit⟩
    rw [← steps]
    exact mul_le_mul_of_nonneg_right large unit.le
  · right
    rw [if_neg large] at bit
    refine ⟨?_, by simpa using bit⟩
    rw [← steps]
    exact mul_lt_mul_of_pos_right (not_le.mp large) unit

omit valid below inside in
theorem mean_large (large : 127 ≤ |input.roundedMean lane block|) :
    66 * input.unit lane block < |input.mean lane block| := by
  by_contra few
  have small := roundedMean_small (not_lt.mp few)
  omega

-- A mean past 126 units is lost on an element beyond it, unless the mantissa wraps to make up for
-- it, which takes a rounded mean of -128 and a bit of 0.
theorem lowest_of_kept (within : offset < input.shape.count block)
    (far : input.mean lane block ≤ input.element lane block offset ∧ 0 ≤ input.mean lane block ∨
      input.element lane block offset ≤ input.mean lane block ∧ input.mean lane block ≤ 0)
    (large : 127 ≤ |input.roundedMean lane block|)
    (kept : input.ElementKept lane block offset) :
    input.type.width = 8 ∧ input.roundedMean lane block = -128 ∧
      input.roundingBit lane block offset = 0 := by
  have unit := @unit_pos input lane block
  have most := abs_roundedMean_le valid below inside (by omega)
  have bit := abs_roundingBit_le_one valid below inside within
  have wraps : (input.roundingBit lane block offset - input.roundedMean lane block).bmod
      (2 ^ input.type.width) ≠
        input.roundingBit lane block offset - input.roundedMean lane block := by
    intro unwrapped
    have near := (close_iff_near unwrapped).mp kept.close
    exact not_near_of_large valid below inside within far (mean_large large) near
  have byte : input.type.width = 8 := by
    cases type : input.type with
    | int8 => rfl
    | int16 =>
        have room : (2 : Int) ^ input.precision ≤ 2 ^ 8 :=
          pow_le_pow_right₀ (by decide) valid.forced.2
        apply absurd _ wraps
        apply fits_bmod
        rw [abs_le] at most bit
        rw [type]
        constructor <;> simp only [MantissaType.width] <;> omega
  have fits := kept.fits
  rw [Fits, byte] at fits
  rw [byte] at wraps
  have outside : ¬ (-128 ≤ input.roundingBit lane block offset - input.roundedMean lane block ∧
      input.roundingBit lane block offset - input.roundedMean lane block ≤ 127) := by
    intro held
    exact wraps (Int.bmod_eq_of_le (by omega) (by omega))
  rw [abs_le] at bit
  have negative : (input.roundedMean lane block : ℚ) ≤ -127 := by
    have low : input.roundedMean lane block ≤ -127 := by omega
    exact_mod_cast low
  have under : input.element lane block offset < 0 := by
    have residue := abs_le.mp (@abs_residue_le input lane block)
    rw [RoundTripInput.residue] at residue
    have product := mul_le_mul_of_nonneg_right negative unit.le
    obtain ⟨_, nonneg⟩ | ⟨under, _⟩ := far <;> linarith
  have nonpos : input.roundingBit lane block offset ≤ 0 :=
    roundedInteger_nonpos (mul_neg_of_neg_of_pos under (pow_pos' _)) _ _
  refine ⟨byte, ?_, ?_⟩ <;> omega

omit valid below inside in
theorem close_of_lowest (byte : input.type.width = 8) (lowest : input.roundedMean lane block = -128)
    (kept : input.ElementKept lane block offset) :
    |input.element lane block offset -
      (((input.roundingBit lane block offset + 128).bmod 256 : Int) *
        (input.shrink lane block * input.unit lane block) + input.mean lane block)| ≤
      2 * input.unit lane block := by
  have decoded : input.kept lane block offset =
      ((input.roundingBit lane block offset + 128).bmod 256 : Int) *
        (input.shrink lane block * input.unit lane block) + input.mean lane block := by
    rw [RoundTripInput.kept, byte, lowest, decodeStep, sub_neg_eq_add]
    rfl
  rw [← decoded]
  exact kept.close

omit valid below inside in
theorem mean_lowest (lowest : input.roundedMean lane block = -128) :
    |input.mean lane block + 128 * input.unit lane block| ≤ 1 / 2 * input.unit lane block := by
  have residue := @abs_residue_le input lane block
  have value : (input.roundedMean lane block : ℚ) = -128 := by exact_mod_cast lowest
  rw [RoundTripInput.residue, value, neg_mul, sub_neg_eq_add] at residue
  exact residue

-- The wrap puts the element 128 steps below a mean of -128 units, for which only a block with its
-- own exponent and eight fractional bits has room.
theorem own_exponent_of_lowest (within : offset < input.shape.count block)
    (byte : input.type.width = 8) (lowest : input.roundedMean lane block = -128)
    (bit : input.roundingBit lane block offset = 0)
    (kept : input.ElementKept lane block offset) :
    input.shrink lane block = 1 ∧ input.precision = 8 := by
  have unit := @unit_pos input lane block
  have shrink := @shrink_pos input lane block
  have mean := abs_le.mp (mean_lowest lowest)
  have close := close_of_lowest byte lowest kept
  have wrapped : (((0 + 128 : Int).bmod 256 : Int) : ℚ) = -128 := by norm_num [Int.bmod]
  rw [bit, wrapped, abs_le] at close
  have magnitude := abs_lt.mp (valid.upper below inside within)
  rw [fittedPower] at magnitude
  have span {bits : Nat} (most : input.precision ≤ bits) :
      input.shrink lane block * input.unit lane block * 2 ^ input.precision ≤
        input.shrink lane block * input.unit lane block * 2 ^ bits :=
    mul_le_mul_of_nonneg_left (pow_le_pow_right₀ (by norm_num) most) (mul_pos shrink unit).le
  have same : input.shrink lane block = 1 := by
    have order := valid.fitted_le_used below inside
    by_cases equal : input.fitted lane block = input.used lane block
    · rw [RoundTripInput.shrink, equal, sub_self, zpow_zero]
    · have half : input.shrink lane block ≤ 1 / 2 := by
        calc input.shrink lane block ≤ 2 ^ (-1 : Int) := pow_le (by omega)
          _ = 1 / 2 := by norm_num
      have product := mul_le_mul_of_nonneg_right half unit.le
      have eight := span valid.forced.2
      linarith
  refine ⟨same, ?_⟩
  by_contra fewer
  have seven := span (show input.precision ≤ 7 by have := valid.forced.2; omega)
  rw [same, one_mul] at close magnitude seven
  linarith

-- The first element of a block carries from 157 units on, so it never wraps as the far one does.
theorem first_lost (nonempty : 0 < input.shape.count block) (byte : input.type.width = 8)
    (lowest : input.roundedMean lane block = -128) (same : input.shrink lane block = 1)
    (eight : input.precision = 8) : ¬ input.ElementKept lane block 0 := by
  intro kept
  have unit := @unit_pos input lane block
  have mean := abs_le.mp (mean_lowest lowest)
  have first := close_of_lowest byte lowest kept
  rw [same, one_mul, abs_le] at first
  obtain ⟨carried, bit⟩ | ⟨small, bit⟩ := firstBit valid below inside eight nonempty
  · by_cases negative : input.element lane block 0 < 0
    · rw [if_pos negative] at bit
      have value : (((-1 + 128 : Int).bmod 256 : Int) : ℚ) = 127 := by norm_num [Int.bmod]
      rw [bit, value] at first
      rw [abs_of_neg negative] at carried
      linarith
    · rw [if_neg negative] at bit
      have value : (((1 + 128 : Int).bmod 256 : Int) : ℚ) = -127 := by norm_num [Int.bmod]
      rw [bit, value] at first
      linarith
  · have value : (((0 + 128 : Int).bmod 256 : Int) : ℚ) = -128 := by norm_num [Int.bmod]
    rw [bit, value] at first
    have near := abs_lt.mp small
    linarith

theorem not_kept_of_large (nonempty : 0 < input.shape.count block)
    (large : 127 ≤ |input.roundedMean lane block|) :
    ¬ ∀ offset < input.shape.count block, input.ElementKept lane block offset := by
  intro kept
  obtain ⟨beyond, early, far⟩ := exists_beyond_mean nonempty
  obtain ⟨byte, lowest, bit⟩ :=
    lowest_of_kept valid below inside early far large (kept beyond early)
  obtain ⟨same, eight⟩ :=
    own_exponent_of_lowest valid below inside early byte lowest bit (kept beyond early)
  exact first_lost valid below inside nonempty byte lowest same eight (kept 0 nonempty)

theorem near_of_kept
    (kept : ∀ offset < input.shape.count block, input.ElementKept lane block offset)
    (within : offset < input.shape.count block) : input.Near lane block offset := by
  have small : |input.roundedMean lane block| ≤ 126 := by
    by_contra large
    exact not_kept_of_large valid below inside (by omega) (by omega) kept
  exact (close_iff_near (unwrapped_of_small valid below inside within small)).mp
    (kept offset within).close

-- With its own exponent, a block of at least three fractional bits has an element of four units or
-- more, and rounding gives back one unit and a half.
theorem not_near_fitted (fitting : input.fixedExponent = 0) (fine : 3 ≤ input.precision)
    (within : offset < input.shape.count block)
    (large : 2 ^ (input.fitted lane block - 1) ≤ |input.element lane block offset|) :
    ¬ input.Near lane block offset := by
  intro near
  have unit := @unit_pos input lane block
  have used : input.used lane block = input.fitted lane block := by
    simp [RoundTripInput.used, fitting]
  have whole : input.shrink lane block = 1 := by
    rw [shrink, used, sub_self, zpow_zero]
  have four : 4 * input.unit lane block ≤ 2 ^ (input.fitted lane block - 1) := by
    calc 4 * input.unit lane block
        = 2 ^ (2 + (input.fitted lane block - input.precision)) := by
          rw [RoundTripInput.unit, used, pow_split]
          norm_num
      _ ≤ 2 ^ (input.fitted lane block - 1) := pow_le (by omega)
  have rounding := abs_rounding_le valid below inside within
  rw [Near, gap, whole] at near
  rw [whole] at rounding
  have sum := abs_sub_abs_le_abs_sub (input.element lane block offset)
    (input.rounding lane block offset)
  rw [sub_self, zero_mul, sub_zero] at near
  linarith

theorem near_of_high_exponent
    (high : input.fitted lane block + input.precision < input.used lane block)
    (within : offset < input.shape.count block) : input.Near lane block offset := by
  have unit := @unit_pos input lane block
  have shrink := @shrink_pos input lane block
  have forced := valid.forced
  have element := valid.upper below inside within
  have mean := abs_mean_lt valid below inside (by omega)
  have rounding := abs_rounding_le valid below inside within
  have half : (2 : ℚ) ^ input.fitted lane block ≤ 1 / 2 * input.unit lane block := by
    calc (2 : ℚ) ^ input.fitted lane block
        ≤ 2 ^ (-1 + (input.used lane block - input.precision)) := pow_le (by omega)
      _ = 1 / 2 * input.unit lane block := by
          rw [RoundTripInput.unit, pow_split]
          norm_num
  have quarter : input.shrink lane block ≤ 1 / 4 := by
    calc input.shrink lane block ≤ 2 ^ (-2 : Int) := pow_le (by omega)
      _ = 1 / 4 := by norm_num
  have share : |(1 - input.shrink lane block) * input.mean lane block| ≤
      |input.mean lane block| := by
    rw [abs_mul, abs_of_nonneg (by linarith)]
    exact mul_le_of_le_one_left (abs_nonneg _) (by linarith)
  have gap := abs_sub (input.element lane block offset)
    ((1 - input.shrink lane block) * input.mean lane block)
  have sum := abs_sub (input.gap lane block offset) (input.rounding lane block offset)
  have product := mul_le_mul_of_nonneg_right quarter unit.le
  rw [Near]
  rw [← RoundTripInput.gap] at gap
  linarith

end Block

variable (input) in
def Throughout (P : Nat → Nat → Nat → Prop) : Prop :=
  ∀ lane < input.shape.lanes, ∀ block < input.shape.numBlocks,
    ∀ offset < input.shape.count block, P lane block offset

theorem decodesWithin_near (valid : input.Valid) :
    input.DecodesWithin ↔ input.Throughout input.Near := by
  constructor
  · intro decodes lane below block inside offset within
    apply near_of_kept valid below inside _ within
    intro other early
    exact kept_of_decodes valid decodes below inside early
  · intro near
    apply decodes_of_kept valid
    intro lane below block inside offset within
    exact kept_of_near valid below inside (near lane below block inside) within

theorem not_decodesWithin (valid : input.Valid) (fitting : input.fixedExponent = 0)
    (fine : 3 ≤ input.precision) : ¬ input.DecodesWithin := by
  intro decodes
  obtain ⟨below, inside⟩ := first_block valid
  obtain ⟨offset, within, large⟩ := valid.lower below inside
  exact not_near_fitted valid below inside fitting fine within large
    ((decodesWithin_near valid).mp decodes 0 below 0 inside offset within)

-- Decoding gives back what is left of the mean of the block, not the element: it is right where the
-- elements are within about two units of this, which the rounding moves by up to 3/2 shrunk units.
theorem decodesWithin_iff_near (input : RoundTripInput) (valid : input.Valid) :
    (input.DecodesWithin ↔ input.Throughout input.Near) ∧
      input.Throughout (fun lane block offset => |input.rounding lane block offset| ≤
        3 / 2 * input.shrink lane block * input.unit lane block) ∧
      (input.Throughout (fun lane block offset => |input.gap lane block offset| ≤
          (2 - 3 / 2 * input.shrink lane block) * input.unit lane block) →
        input.DecodesWithin) ∧
      input.Throughout (fun lane block offset =>
        (2 + 3 / 2 * input.shrink lane block) * input.unit lane block <
            |input.gap lane block offset| →
          ¬ input.DecodesWithin) ∧
      (input.Throughout (fun lane block _ =>
          input.fitted lane block + input.precision < input.used lane block) →
        input.DecodesWithin) ∧
      (input.fixedExponent = 0 → 3 ≤ input.precision → ¬ input.DecodesWithin) := by
  have rounding : input.Throughout (fun lane block offset => |input.rounding lane block offset| ≤
      3 / 2 * input.shrink lane block * input.unit lane block) :=
    fun lane below block inside offset within => abs_rounding_le valid below inside within
  refine ⟨decodesWithin_near valid, rounding, ?_, ?_, ?_, not_decodesWithin valid⟩
  · intro small
    apply (decodesWithin_near valid).mpr
    intro lane below block inside offset within
    have gap := small lane below block inside offset within
    have moved := rounding lane below block inside offset within
    have sum := abs_sub (input.gap lane block offset) (input.rounding lane block offset)
    rw [Near]
    linarith
  · intro lane below block inside offset within far decodes
    have near := (decodesWithin_near valid).mp decodes lane below block inside offset within
    have moved := rounding lane below block inside offset within
    have sum := abs_sub_abs_le_abs_sub (input.gap lane block offset)
      (input.rounding lane block offset)
    rw [Near] at near
    linarith
  · intro high
    apply (decodesWithin_near valid).mpr
    intro lane below block inside offset within
    exact near_of_high_exponent valid below inside (high lane below block inside offset within)
      within

section Sample

def half : FiniteFloat := { bits := 0x3F000000#32, finite := by decide }

theorem half_toRat : half.toRat = 1 / 2 := by
  have field : biased half.bits = 126 := by decide
  have part : fraction half.bits = 0 := by decide
  have sign : negative half.bits = false := by decide
  norm_num [FiniteFloat.toRat, value, magnitude, significand, field, part, sign]

def oneByOne : BlockShape := { rows := 1, cols := 1, blockSize := 1, blockColumns := true }

def singleHalf (precision : Nat) : RoundTripInput :=
  { type := .int16
    shape := oneByOne
    values := fun _ => half
    fixedExponent := 0
    precision := precision }

theorem oneByOne_sizes : oneByOne.lanes = 1 ∧ oneByOne.numBlocks = 1 ∧ oneByOne.count 0 = 1 := by
  decide

theorem singleHalf_fitted (precision : Nat) : (singleHalf precision).fitted 0 0 = 0 := by
  have count : (singleHalf precision).shape.count 0 = 1 := oneByOne_sizes.2.2
  have field : biased (encode half.toRat) = 126 := biased_encode_value half.finite
  have element : (singleHalf precision).element 0 0 = fun _ => half.toRat := rfl
  rw [fitted, count, element]
  simp [fittedExponent, field]

theorem singleHalf_valid {precision : Nat} (positive : 1 ≤ precision) (few : precision ≤ 8) :
    (singleHalf precision).Valid := by
  have fitted := singleHalf_fitted precision
  have used : (singleHalf precision).used 0 0 = 0 := fitted
  constructor
  · exact Nat.one_pos
  · exact Nat.one_pos
  · exact Nat.one_pos
  · exact ⟨positive, few⟩
  · exact .inl rfl
  · intro lane below block inside
    have first : lane = 0 := Nat.lt_one_iff.mp (oneByOne_sizes.1 ▸ below)
    have only : block = 0 := Nat.lt_one_iff.mp (oneByOne_sizes.2.1 ▸ inside)
    have same : (singleHalf precision).precision = precision := rfl
    rw [first, only, used, fitted, same]
    simp only [NormalShift]
    omega

theorem decode_half_lost : (singleHalf 8).Valid ∧ ¬ (singleHalf 8).DecodesWithin :=
  have valid := singleHalf_valid (by decide) (by decide)
  ⟨valid, not_decodesWithin valid rfl (by decide)⟩

theorem singleHalf_near : (singleHalf 1).Near 0 0 0 := by
  have fitted := singleHalf_fitted 1
  have used : (singleHalf 1).used 0 0 = 0 := fitted
  have element : (singleHalf 1).element 0 0 0 = 1 / 2 := half_toRat
  have count : (singleHalf 1).shape.count 0 = 1 := oneByOne_sizes.2.2
  have mean : (singleHalf 1).mean 0 0 = 1 / 2 := by
    simp [RoundTripInput.mean, average, count, element]
  have precision : (singleHalf 1).precision = 1 := rfl
  have roundedMean : (singleHalf 1).roundedMean 0 0 = 1 := by
    norm_num [RoundTripInput.roundedMean, mean, used, precision, roundHalfAway]
  have noise : (elementNoise 1 0).toNat % 2 = 1 := by decide
  have bit : (singleHalf 1).roundingBit 0 0 0 = 1 := by
    norm_num [roundingBit, roundedInteger, roundingCarry, used, element, count, precision, noise]
  norm_num [Near, gap, rounding, residue, shrink, unit, used, fitted, element, mean, precision,
    roundedMean, bit]

theorem decode_half_kept : (singleHalf 1).Valid ∧ (singleHalf 1).DecodesWithin := by
  have valid := singleHalf_valid (le_refl 1) (by decide)
  have near := (decodesWithin_iff_near (singleHalf 1) valid).1.mpr
  constructor
  · exact valid
  · apply near
    intro lane below block inside offset within
    have first : lane = 0 := Nat.lt_one_iff.mp (oneByOne_sizes.1 ▸ below)
    have only : block = 0 := Nat.lt_one_iff.mp (oneByOne_sizes.2.1 ▸ inside)
    subst first only
    have alone : offset = 0 := Nat.lt_one_iff.mp (oneByOne_sizes.2.2 ▸ within)
    subst alone
    exact singleHalf_near

end Sample

end RoundTripInput

end NpuMatmul
