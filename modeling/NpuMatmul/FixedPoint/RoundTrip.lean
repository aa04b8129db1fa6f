import NpuMatmul.FixedPoint.Encoding

set_option autoImplicit false

namespace NpuMatmul

open Binary32

inductive MantissaType where
  | int8
  | int16
deriving DecidableEq, Repr

def MantissaType.width : MantissaType → Nat
  | .int8 => 8
  | .int16 => 16

def NormalShift (shift : Int) : Prop := -126 ≤ shift ∧ shift ≤ 127

structure RoundTripInput where
  type : MantissaType
  shape : BlockShape
  values : Nat → FiniteFloat
  fixedExponent : Int
  precision : Nat

namespace RoundTripInput

variable (input : RoundTripInput)

def rational (index : Nat) : ℚ := (input.values index).toRat

def element (lane block offset : Nat) : ℚ :=
  input.rational (input.shape.element lane block offset)

def fitted (lane block : Nat) : Int :=
  fittedExponent (input.shape.count block) (input.element lane block)

def used (lane block : Nat) : Int :=
  if input.fixedExponent ≠ 0 then input.fixedExponent else input.fitted lane block

def mean (lane block : Nat) : ℚ :=
  average (input.shape.count block) (input.element lane block)

structure Valid : Prop where
  rows : 0 < input.shape.rows
  cols : 0 < input.shape.cols
  blockSize : 0 < input.shape.blockSize
  forced : 1 ≤ input.precision ∧ input.precision ≤ 8
  fixed : input.fixedExponent = 0 ∨ ∀ lane < input.shape.lanes, ∀ block < input.shape.numBlocks,
    input.fitted lane block ≤ input.fixedExponent
  normal : ∀ lane < input.shape.lanes, ∀ block < input.shape.numBlocks,
    NormalShift (-input.used lane block) ∧
      NormalShift (-input.used lane block + input.precision) ∧
      NormalShift (input.fitted lane block - input.precision)

def decoded (host : Unspecified) (memory : BlockArrays input.type.width ℚ) (output : Nat → ℚ) :
    Nat → ℚ :=
  (encoded (exact host) memory input.shape input.rational input.fixedExponent
    input.precision).mantissaToFloats (exact host) output

-- Every element comes back within two units of the encoding, whatever memory held before.
def DecodesWithin : Prop :=
  ∀ (host : Unspecified) (memory : BlockArrays input.type.width ℚ) (output : Nat → ℚ),
    ∀ lane < input.shape.lanes, ∀ position < input.shape.laneLength,
      |input.decoded host memory output (input.shape.flatIndex lane position) -
          input.rational (input.shape.flatIndex lane position)| ≤
        2 * 2 ^ (input.used lane (position / input.shape.blockSize) - input.precision)

-- All that encoding keeps of one element: 1, 0 or -1.
def roundingBit (lane block offset : Nat) : Int :=
  roundedInteger (input.element lane block offset * 2 ^ (-input.used lane block))
    (elementNoise (input.shape.count block) offset) input.precision

def roundedMean (lane block : Nat) : Int :=
  roundHalfAway (input.mean lane block * 2 ^ (-input.used lane block + (input.precision : Int)))

def kept (lane block offset : Nat) : ℚ :=
  (input.roundingBit lane block offset - input.roundedMean lane block).bmod
      (2 ^ input.type.width) *
    2 ^ (input.fitted lane block - input.precision) + input.mean lane block

structure ElementKept (lane block offset : Nat) : Prop where
  fits : Fits input.type.width (input.roundedMean lane block)
  close : |input.element lane block offset - input.kept lane block offset| ≤
    2 * 2 ^ (input.used lane block - input.precision)

variable {input}

theorem element_finite (lane block offset : Nat) : |input.element lane block offset| < 2 ^ 128 :=
  FiniteFloat.abs_lt _

theorem Valid.fitted_normal (valid : input.Valid) {lane block : Nat}
    (below : lane < input.shape.lanes) (inside : block < input.shape.numBlocks) :
    -127 < fittedExponent (input.shape.count block) (input.element lane block) := by
  have decode := (valid.normal lane below block inside).2.2.1
  have forced := valid.forced
  unfold fitted at decode
  omega

theorem Valid.upper (valid : input.Valid) {lane block : Nat} (below : lane < input.shape.lanes)
    (inside : block < input.shape.numBlocks) {offset : Nat}
    (within : offset < input.shape.count block) :
    |input.element lane block offset| < 2 ^ input.fitted lane block :=
  fittedExponent_upper (fun i _ => element_finite lane block i) (valid.fitted_normal below inside)
    offset within

theorem Valid.lower (valid : input.Valid) {lane block : Nat} (below : lane < input.shape.lanes)
    (inside : block < input.shape.numBlocks) :
    ∃ offset < input.shape.count block,
      2 ^ (input.fitted lane block - 1) ≤ |input.element lane block offset| :=
  fittedExponent_lower (fun i _ => element_finite lane block i) (valid.fitted_normal below inside)

theorem Valid.fitted_le_used (valid : input.Valid) {lane block : Nat}
    (below : lane < input.shape.lanes) (inside : block < input.shape.numBlocks) :
    input.fitted lane block ≤ input.used lane block := by
  unfold used
  obtain unset | large := valid.fixed
  · simp [unset]
  · split
    · exact large lane below block inside
    · exact le_rfl

theorem decoded_exact (valid : input.Valid) (host : Unspecified)
    (memory : BlockArrays input.type.width ℚ) (output : Nat → ℚ) {lane block offset : Nat}
    (below : lane < input.shape.lanes) (inside : block < input.shape.numBlocks)
    (within : offset < input.shape.count block) :
    input.decoded host memory output (input.shape.element lane block offset) =
      (BitVec.ofInt input.type.width (input.roundingBit lane block offset) -
          (exact host).toSigned input.type.width (input.roundedMean lane block : ℚ)).toInt *
        2 ^ (input.fitted lane block - input.precision) + input.mean lane block := by
  obtain ⟨scale, meanScale, decodeScale⟩ := valid.normal lane below block inside
  have forced := valid.forced
  have stored := encoded_correct (exact host) memory input.shape input.rational
    input.fixedExponent forced.1 below inside
  have exponent : (blockStats (exact host) input.shape input.rational lane block).exponent =
      input.fitted lane block := blockStats_exponent host _ _ _ _
  have mean : (blockStats (exact host) input.shape input.rational lane block).mean (exact host) =
      input.mean lane block := blockStats_mean host _ _ _ _
  have usedHere : (if input.fixedExponent ≠ 0 then input.fixedExponent
      else input.fitted lane block) = input.used lane block := rfl
  have above : |input.rational (input.shape.element lane block offset)| <
      2 ^ input.used lane block :=
    lt_of_lt_of_le (valid.upper below inside within) (pow_le (valid.fitted_le_used below inside))
  have rounded := roundScaled_exact host input.type.width
    (by omega : input.precision ≤ 23) input.shape input.rational scale.1 scale.2 above
    (elementNoise (input.shape.count block) offset)
  have centred := integerMean_exact host input.type.width (input.mean lane block)
    meanScale.1 meanScale.2
  have mantissa := stored.mantissa offset within
  simp only [exponent, mean, usedHere] at mantissa
  have shift := fastPow2_exact host decodeScale.1 decodeScale.2
  rw [decoded, decoded_correct (exact host) memory input.shape input.rational
    input.fixedExponent forced.1 output below inside within, mantissa, exponent, mean, rounded,
    centred, shift]
  rfl

theorem fits_small {type : MantissaType} {z : Int} (small : |z| ≤ 127) : Fits type.width z := by
  rw [abs_le] at small
  cases type <;> simp [Fits, MantissaType.width] <;> omega

theorem toInt_difference (width : Nat) (r t : Int) :
    (BitVec.ofInt width r - BitVec.ofInt width t).toInt = (r - t).bmod (2 ^ width) := by
  simp [BitVec.toInt_sub]

theorem fits_bmod {type : MantissaType} {z : Int} (fits : Fits type.width z) :
    z.bmod (2 ^ type.width) = z := by
  apply Int.bmod_eq_of_le
  all_goals cases type <;> simp [Fits, MantissaType.width] at fits ⊢ <;> omega

theorem abs_mean_lt (valid : input.Valid) {lane block : Nat} (below : lane < input.shape.lanes)
    (inside : block < input.shape.numBlocks) (nonempty : 0 < input.shape.count block) :
    |input.mean lane block| < 2 ^ input.fitted lane block :=
  abs_average_lt nonempty fun _ within => valid.upper below inside within

theorem mean_scaled_lt (valid : input.Valid) {lane block : Nat} (below : lane < input.shape.lanes)
    (inside : block < input.shape.numBlocks) (nonempty : 0 < input.shape.count block) :
    |input.mean lane block * 2 ^ (-input.used lane block + (input.precision : Int))| <
      2 ^ (input.fitted lane block - input.used lane block + input.precision) := by
  have scale := pow_pos' (-input.used lane block + (input.precision : Int))
  have exponent : input.fitted lane block - input.used lane block + input.precision =
      input.fitted lane block + (-input.used lane block + input.precision) := by ring
  have mean := abs_mean_lt valid below inside nonempty
  rw [abs_mul, abs_of_pos scale, exponent, pow_split (input.fitted lane block)]
  exact mul_lt_mul_of_pos_right mean scale

theorem abs_roundedMean_le (valid : input.Valid) {lane block : Nat}
    (below : lane < input.shape.lanes) (inside : block < input.shape.numBlocks)
    (nonempty : 0 < input.shape.count block) :
    |input.roundedMean lane block| ≤ 2 ^ input.precision := by
  apply abs_roundHalfAway_le
  have order := valid.fitted_le_used below inside
  calc _ < (2 : ℚ) ^ (input.fitted lane block - input.used lane block + input.precision) :=
        mean_scaled_lt valid below inside nonempty
    _ ≤ 2 ^ (input.precision : Int) := pow_le (by omega)
    _ = ((2 ^ input.precision : Int) : ℚ) := by norm_num

theorem fits_of_high_exponent (valid : input.Valid) {lane block : Nat}
    (below : lane < input.shape.lanes) (inside : block < input.shape.numBlocks)
    (nonempty : 0 < input.shape.count block)
    (high : input.fitted lane block + 6 ≤ input.used lane block) :
    Fits input.type.width (input.roundedMean lane block) := by
  apply fits_small
  have bound : |input.roundedMean lane block| ≤ 4 := by
    apply abs_roundHalfAway_le
    have forced := valid.forced
    calc _ < (2 : ℚ) ^ (input.fitted lane block - input.used lane block + input.precision) :=
          mean_scaled_lt valid below inside nonempty
      _ ≤ 2 ^ (2 : Int) := pow_le (by omega)
      _ = ((4 : Int) : ℚ) := by norm_num
  omega

-- A rounded mean outside T is cast by the whim of the host, which two hosts settle apart.
theorem fits_of_decodes (valid : input.Valid) (memory : BlockArrays input.type.width ℚ)
    (output : Nat → ℚ) {lane block offset : Nat} (below : lane < input.shape.lanes)
    (inside : block < input.shape.numBlocks) (within : offset < input.shape.count block)
    (all : ∀ host, |input.decoded host memory output (input.shape.element lane block offset) -
      input.element lane block offset| ≤ 2 * 2 ^ (input.used lane block - input.precision)) :
    Fits input.type.width (input.roundedMean lane block) := by
  by_contra out
  have spread (k : Int) (range : Fits input.type.width k) :
      |k * 2 ^ (input.fitted lane block - input.precision) + input.mean lane block -
        input.element lane block offset| ≤ 2 * 2 ^ (input.used lane block - input.precision) := by
    have chosen := all
      { sqrt := id
        nonFinite := fun _ => 0
        outOfRange := fun width _ =>
          BitVec.ofInt width (input.roundingBit lane block offset - k) }
    rw [decoded_exact valid _ memory output below inside within, exact_toSigned_out _ out,
      toInt_difference, Int.sub_sub_self, fits_bmod range] at chosen
    exact chosen
  have top := spread 127 (fits_small (by norm_num))
  have bottom := spread (-127) (fits_small (by norm_num))
  apply out
  apply fits_of_high_exponent valid below inside (by omega)
  by_contra low
  have unit := pow_pos' (input.fitted lane block - input.precision)
  have exponent : input.used lane block - input.precision ≤
      5 + (input.fitted lane block - input.precision) := by omega
  have close : (2 : ℚ) ^ (input.used lane block - input.precision) ≤
      32 * 2 ^ (input.fitted lane block - input.precision) := by
    calc (2 : ℚ) ^ (input.used lane block - input.precision)
        ≤ 2 ^ (5 + (input.fitted lane block - input.precision)) := pow_le exponent
      _ = 32 * 2 ^ (input.fitted lane block - input.precision) := by
          rw [pow_split]
          norm_num
  rw [abs_le] at top bottom
  push_cast at top bottom
  linarith

theorem abs_roundingBit_le_one (valid : input.Valid) {lane block offset : Nat}
    (below : lane < input.shape.lanes) (inside : block < input.shape.numBlocks)
    (within : offset < input.shape.count block) :
    |input.roundingBit lane block offset| ≤ 1 := by
  apply abs_roundedInteger_le_one
  apply scaled_lt_one
  exact lt_of_lt_of_le (valid.upper below inside within)
    (pow_le (valid.fitted_le_used below inside))

theorem decoded_kept (valid : input.Valid) (host : Unspecified)
    (memory : BlockArrays input.type.width ℚ) (output : Nat → ℚ) {lane block offset : Nat}
    (below : lane < input.shape.lanes) (inside : block < input.shape.numBlocks)
    (within : offset < input.shape.count block)
    (fits : Fits input.type.width (input.roundedMean lane block)) :
    input.decoded host memory output (input.shape.element lane block offset) =
      input.kept lane block offset := by
  rw [decoded_exact valid host memory output below inside within, exact_toSigned_int host fits,
    toInt_difference]
  rfl

theorem block_of_position {block offset : Nat} (within : offset < input.shape.count block) :
    (input.shape.start block + offset) / input.shape.blockSize = block := by
  have short := input.shape.count_le block
  rw [BlockShape.start, Nat.mul_comm, Nat.mul_add_div (by omega), Nat.div_eq_of_lt (by omega),
    Nat.add_zero]

theorem decodes_of_kept (valid : input.Valid)
    (kept : ∀ lane < input.shape.lanes, ∀ block < input.shape.numBlocks,
      ∀ offset < input.shape.count block, input.ElementKept lane block offset) :
    input.DecodesWithin := by
  intro host memory output lane below position inside
  obtain ⟨block, offset, enough, within, same⟩ :=
    BlockShape.element_covers valid.blockSize inside
  obtain ⟨fits, close⟩ := kept lane below block enough offset within
  have decoded := decoded_kept valid host memory output below enough within fits
  have place : input.shape.element lane block offset = input.shape.flatIndex lane position := by
    rw [BlockShape.element, same]
  rw [← place, ← same, block_of_position within, decoded, abs_sub_comm]
  exact close

theorem kept_of_decodes (valid : input.Valid) (decodes : input.DecodesWithin)
    {lane block offset : Nat} (below : lane < input.shape.lanes)
    (inside : block < input.shape.numBlocks) (within : offset < input.shape.count block) :
    input.ElementKept lane block offset := by
  have all (host : Unspecified) :
      |input.decoded host default (fun _ => 0) (input.shape.element lane block offset) -
        input.element lane block offset| ≤ 2 * 2 ^ (input.used lane block - input.precision) := by
    have position := decodes host default (fun _ => 0) lane below
      (input.shape.start block + offset) (BlockShape.offset_inside within)
    rw [block_of_position within] at position
    exact position
  have fits := fits_of_decodes valid default (fun _ => 0) below inside within all
  constructor
  · exact fits
  · have host : Unspecified :=
      { sqrt := id, nonFinite := fun _ => 0, outOfRange := fun width _ => BitVec.ofNat width 0 }
    have close := all host
    rw [decoded_kept valid host default _ below inside within fits, abs_sub_comm] at close
    exact close

theorem first_block (valid : input.Valid) :
    0 < input.shape.lanes ∧ 0 < input.shape.numBlocks := by
  have rows := valid.rows
  have cols := valid.cols
  have positive := valid.blockSize
  have long : 0 < input.shape.laneLength := by
    unfold BlockShape.laneLength
    split <;> omega
  constructor
  · unfold BlockShape.lanes
    split <;> omega
  · exact Nat.div_pos (by omega) positive

end RoundTripInput

end NpuMatmul
