import NpuMatmul.FixedPoint.BlockExact

set_option autoImplicit false

namespace NpuMatmul

open Binary32

section Code

variable {F : Type} (fp : FloatArith F) {width : Nat}

-- The three calls every user of the format makes: construct, fit_exponent, floats_to_mantissa.
def encoded (memory : BlockArrays width F) (shape : BlockShape) (values : Nat → F)
    (fixedExponent : Int) (forcePrecision : Nat) : FixedPointBlock width F :=
  let block := FixedPointBlock.create memory shape.rows shape.cols shape.blockSize
    shape.blockColumns
  let block := block.fitExponent fp values
  block.floatsToMantissa fp
    { floatsArray := values
      fixedExponent := fixedExponent
      forcePrecision := forcePrecision
      other := .default fp }

structure EncodedAt (arrays : BlockArrays width F) (shape : BlockShape) (values : Nat → F)
    (lane block : Nat) (fixedExponent : Int) (forcePrecision : Nat) : Prop where
  exponent : arrays.exponents (shape.blockFlatIdx lane block) =
    (blockStats fp shape values lane block).exponent
  mean : arrays.means (shape.blockFlatIdx lane block) =
    (blockStats fp shape values lane block).mean fp
  precision : arrays.precisions (shape.blockFlatIdx lane block) = forcePrecision
  mantissa : ∀ offset < shape.count block,
    let exponentVal := if fixedExponent ≠ 0 then fixedExponent
      else (blockStats fp shape values lane block).exponent
    arrays.mantissa (shape.element lane block offset) =
      roundElement fp (scaledElement fp shape values exponentVal lane block) forcePrecision offset
          (elementNoise (shape.count block) offset) -
        integerMean fp width ((blockStats fp shape values lane block).mean fp) exponentVal
          forcePrecision

theorem blockStats_congr {shape : BlockShape} {values other : Nat → F} {lane block : Nat}
    (same : ∀ offset < shape.count block,
      values (shape.element lane block offset) = other (shape.element lane block offset)) :
    blockStats fp shape values lane block = blockStats fp shape other lane block := by
  apply Loop.forLoop_congr
  intro offset stats below
  rw [same offset below]

theorem roundElement_congr {input other : Nat → F} {index : Nat}
    (same : input index = other index) (precision : Nat) (noise : BitVec 32) :
    (roundElement fp input precision index noise : BitVec width) =
      roundElement fp other precision index noise := by
  simp [roundElement, same]

theorem passes_correct (memory : BlockArrays width F) (shape : BlockShape)
    {fitted rounded values : Nat → F} (fixedExponent : Int) {forcePrecision : Nat}
    (forced : 0 < forcePrecision) {lane block : Nat} (below : lane < shape.lanes)
    (inside : block < shape.numBlocks)
    (fittedSame : ∀ offset < shape.count block,
      fitted (shape.element lane block offset) = values (shape.element lane block offset))
    (roundedSame : ∀ offset < shape.count block,
      rounded (shape.element lane block offset) = values (shape.element lane block offset)) :
    EncodedAt fp
      (((FixedPointBlock.create memory shape.rows shape.cols shape.blockSize
        shape.blockColumns).fitExponent fp fitted).floatsToMantissa fp
          { floatsArray := rounded
            fixedExponent := fixedExponent
            forcePrecision := forcePrecision
            other := .default fp }).toBlockArrays
      shape values lane block fixedExponent forcePrecision := by
  let created := FixedPointBlock.create memory shape.rows shape.cols shape.blockSize
    shape.blockColumns
  let arguments : EncodeArguments F :=
    { floatsArray := rounded
      fixedExponent := fixedExponent
      forcePrecision := forcePrecision
      other := .default fp }
  have fit := fitExponent_correct fp created fitted lane below block inside
  have stats := blockStats_congr fp fittedSame
  have exponent : (created.fitExponent fp fitted).exponents (shape.blockFlatIdx lane block) =
      (blockStats fp shape values lane block).exponent := by
    rw [← stats]
    exact fit.1
  have mean : (created.fitExponent fp fitted).means (shape.blockFlatIdx lane block) =
      (blockStats fp shape values lane block).mean fp := by
    rw [← stats]
    exact fit.2.1
  have kept := floatsToMantissa_kept fp (created.fitExponent fp fitted) arguments
  obtain ⟨precision, mantissa⟩ :=
    floatsToMantissa_correct fp (created.fitExponent fp fitted) arguments lane below block inside
  constructor
  · exact (congrFun kept.exponents _).trans exponent
  · exact (congrFun kept.means _).trans mean
  · exact precision.trans (if_pos forced)
  · intro offset within exponentVal
    have scaled : scaledElement fp shape rounded exponentVal lane block offset =
        scaledElement fp shape values exponentVal lane block offset := by
      rw [scaledElement, scaledElement, roundedSame offset within]
    have stored := mantissa offset within
    have flat : (created.fitExponent fp fitted).blockFlatIdx lane block =
        shape.blockFlatIdx lane block := rfl
    simp only [encodedMantissa, encodePrecision, encodeExponent, flat, exponent, mean, arguments,
      if_pos forced] at stored
    rw [← roundElement_congr fp scaled]
    exact stored

theorem encoded_correct (memory : BlockArrays width F) (shape : BlockShape) (values : Nat → F)
    (fixedExponent : Int) {forcePrecision : Nat} (forced : 0 < forcePrecision) {lane block : Nat}
    (below : lane < shape.lanes) (inside : block < shape.numBlocks) :
    EncodedAt fp (encoded fp memory shape values fixedExponent forcePrecision).toBlockArrays shape
      values lane block fixedExponent forcePrecision :=
  passes_correct fp memory shape fixedExponent forced below inside (fun _ _ => rfl) fun _ _ => rfl

theorem decoded_correct (memory : BlockArrays width F) (shape : BlockShape) (values : Nat → F)
    (fixedExponent : Int) {forcePrecision : Nat} (forced : 0 < forcePrecision)
    (outputArray : Nat → F) {lane block offset : Nat} (below : lane < shape.lanes)
    (inside : block < shape.numBlocks) (within : offset < shape.count block) :
    (encoded fp memory shape values fixedExponent forcePrecision).mantissaToFloats fp outputArray
        (shape.element lane block offset) =
      fp.add
        (fp.mul
          (fp.ofInt ((encoded fp memory shape values fixedExponent forcePrecision).mantissa
            (shape.element lane block offset)).toInt)
          (fastPow2 fp ((blockStats fp shape values lane block).exponent - forcePrecision)))
        ((blockStats fp shape values lane block).mean fp) := by
  let result := encoded fp memory shape values fixedExponent forcePrecision
  have stored := encoded_correct fp memory shape values fixedExponent forced below inside
  have exponent : result.exponents (result.blockFlatIdx lane block) =
      (blockStats fp shape values lane block).exponent := stored.exponent
  have precision : result.precisions (result.blockFlatIdx lane block) = forcePrecision :=
    stored.precision
  have mean : result.means (result.blockFlatIdx lane block) =
      (blockStats fp shape values lane block).mean fp := stored.mean
  have decoded :=
    mantissaToFloats_correct fp result outputArray lane below block inside offset within
  simp only [decodedValue, exponent, precision, mean] at decoded
  exact decoded

end Code

section Exact

variable (host : Unspecified) {width precision : Nat}

theorem scaledElement_exact (shape : BlockShape) (values : Nat → ℚ) {exponentVal : Int}
    (low : -126 ≤ -exponentVal) (high : -exponentVal ≤ 127) (lane block offset : Nat) :
    scaledElement (exact host) shape values exponentVal lane block offset =
      values (shape.element lane block offset) * 2 ^ (-exponentVal) := by
  simp [scaledElement, fastPow2_exact host low high]

variable (width) in
theorem integerMean_exact (mean : ℚ) {exponentVal : Int}
    (low : -126 ≤ -exponentVal + precision) (high : -exponentVal + precision ≤ 127) :
    integerMean (exact host) width mean exponentVal precision =
      (exact host).toSigned width
        (roundHalfAway (mean * 2 ^ (-exponentVal + (precision : Int))) : ℚ) := by
  simp [integerMean, fastPow2_exact host low high]

theorem scaled_lt_one {q : ℚ} {exponentVal : Int} (below : |q| < 2 ^ exponentVal) :
    |q * 2 ^ (-exponentVal)| < 1 := by
  have scale := pow_pos' (-exponentVal)
  rw [abs_mul, abs_of_pos scale]
  calc |q| * 2 ^ (-exponentVal) < 2 ^ exponentVal * 2 ^ (-exponentVal) := by gcongr
    _ = 1 := by
        rw [← pow_split]
        simp

theorem rounded_residue (mean : ℚ) (exponentVal : Int) :
    |mean - roundHalfAway (mean * 2 ^ (-exponentVal + (precision : Int))) *
        2 ^ (exponentVal - precision)| ≤ 1 / 2 * 2 ^ (exponentVal - precision) := by
  have unit := pow_pos' (exponentVal - precision)
  have near := roundHalfAway_near (mean * 2 ^ (-exponentVal + (precision : Int)))
  have inverse : (2 : ℚ) ^ (-exponentVal + (precision : Int)) * 2 ^ (exponentVal - precision) =
      1 := by
    rw [← pow_split]
    simp
  have factored : mean - roundHalfAway (mean * 2 ^ (-exponentVal + (precision : Int))) *
      2 ^ (exponentVal - precision) =
        (mean * 2 ^ (-exponentVal + (precision : Int)) -
          roundHalfAway (mean * 2 ^ (-exponentVal + (precision : Int)))) *
            2 ^ (exponentVal - precision) := by
    rw [sub_mul, mul_assoc, inverse, mul_one]
  rw [factored, abs_mul, abs_of_pos unit]
  exact mul_le_mul_of_nonneg_right near unit.le

variable (width) in
theorem roundScaled_exact (few : precision ≤ 23) (shape : BlockShape)
    (values : Nat → ℚ) {exponentVal : Int} (low : -126 ≤ -exponentVal) (high : -exponentVal ≤ 127)
    {lane block offset : Nat} (below : |values (shape.element lane block offset)| < 2 ^ exponentVal)
    (noise : BitVec 32) :
    roundElement (exact host) (scaledElement (exact host) shape values exponentVal lane block)
        precision offset noise =
      BitVec.ofInt width (roundedInteger
        (values (shape.element lane block offset) * 2 ^ (-exponentVal)) noise precision) := by
  have scaled := scaledElement_exact host shape values low high lane block offset
  have small := scaled_lt_one below
  rw [← scaled] at small ⊢
  exact roundElement_exact host width few _ offset noise small

end Exact

end NpuMatmul
