import NpuMatmul.FixedPoint.Block

set_option autoImplicit false

namespace NpuMatmul

open Loop

namespace BlockShape

variable {shape : BlockShape}

theorem flatIndex_injective {lane lane' position position' : Nat} (below : lane < shape.lanes)
    (below' : lane' < shape.lanes) (inside : position < shape.laneLength)
    (inside' : position' < shape.laneLength)
    (same : shape.flatIndex lane position = shape.flatIndex lane' position') :
    lane = lane' ∧ position = position' := by
  unfold lanes at below below'
  unfold laneLength at inside inside'
  unfold flatIndex at same
  cases orientation : shape.blockColumns <;>
    simp only [orientation] at below below' inside inside' same
  · exact (rowMajor_injective below below' same).symm
  · exact rowMajor_injective inside inside' same

theorem blockFlatIdx_injective {lane lane' block block' : Nat} (below : lane < shape.lanes)
    (below' : lane' < shape.lanes) (inside : block < shape.numBlocks)
    (inside' : block' < shape.numBlocks)
    (same : shape.blockFlatIdx lane block = shape.blockFlatIdx lane' block') :
    lane = lane' ∧ block = block' := by
  unfold lanes at below below'
  unfold blockFlatIdx at same
  cases orientation : shape.blockColumns <;> simp only [orientation] at below below' same
  · exact (rowMajor_injective below below' same).symm
  · exact rowMajor_injective inside inside' same

theorem count_le (block : Nat) : shape.count block ≤ shape.blockSize := by
  unfold count stop
  split <;> omega

theorem offset_inside {block offset : Nat} (below : offset < shape.count block) :
    shape.start block + offset < shape.laneLength := by
  unfold count stop at below
  split at below <;> omega

theorem element_injective {lane lane' block block' offset offset' : Nat}
    (below : lane < shape.lanes) (below' : lane' < shape.lanes) (inside : offset < shape.count block)
    (inside' : offset' < shape.count block')
    (same : shape.element lane block offset = shape.element lane' block' offset') :
    lane = lane' ∧ block = block' ∧ offset = offset' := by
  have short := shape.count_le block
  have short' := shape.count_le block'
  obtain ⟨lanes, positions⟩ := flatIndex_injective below below' (offset_inside inside)
    (offset_inside inside') same
  exact ⟨lanes, rowMajor_injective (by omega) (by omega) positions⟩

theorem element_apart {lane block : Nat} (below : lane < shape.lanes) :
    ∀ i j, i < shape.count block → j < i →
      shape.element lane block j ≠ shape.element lane block i := by
  intro i j upper earlier same
  have positions := element_injective below below (by omega) upper same
  omega

theorem element_covers (positive : 0 < shape.blockSize) {position : Nat}
    (inside : position < shape.laneLength) :
    ∃ block offset, block < shape.numBlocks ∧ offset < shape.count block ∧
      shape.start block + offset = position := by
  have split := Nat.div_add_mod' position shape.blockSize
  have rest := Nat.mod_lt position positive
  refine ⟨position / shape.blockSize, position % shape.blockSize, ?_, ?_, split⟩
  · apply Nat.div_lt_of_lt_mul
    have blocks := Nat.div_add_mod (shape.laneLength + shape.blockSize - 1) shape.blockSize
    have last := Nat.mod_lt (shape.laneLength + shape.blockSize - 1) positive
    unfold numBlocks
    omega
  · unfold count stop start
    split_ifs <;> omega

end BlockShape

section Spec

variable {F : Type} (fp : FloatArith F) {width : Nat}

theorem fitExponent_correct (block : FixedPointBlock width F) (values : Nat → F) :
    ∀ lane < block.lanes, ∀ index < block.numBlocks,
      (block.fitExponent fp values).exponents (block.blockFlatIdx lane index) =
          (blockStats fp block.toBlockShape values lane index).exponent ∧
        (block.fitExponent fp values).means (block.blockFlatIdx lane index) =
          (blockStats fp block.toBlockShape values lane index).mean fp ∧
        (block.fitExponent fp values).stdDevs (block.blockFlatIdx lane index) =
          (blockStats fp block.toBlockShape values lane index).stdDev fp := by
  unfold FixedPointBlock.fitExponent
  apply grid_each (P := fun _ => True) (Q := fun lane index (arrays : BlockArrays width F) =>
    arrays.exponents (block.blockFlatIdx lane index) =
        (blockStats fp block.toBlockShape values lane index).exponent ∧
      arrays.means (block.blockFlatIdx lane index) =
        (blockStats fp block.toBlockShape values lane index).mean fp ∧
      arrays.stdDevs (block.blockFlatIdx lane index) =
        (blockStats fp block.toBlockShape values lane index).stdDev fp)
  · trivial
  · simp
  · simp [fitBlock]
  · intro lane index lane' index' arrays below inside below' inside' other _ made
    have apart : block.blockFlatIdx lane' index' ≠ block.blockFlatIdx lane index := by
      intro same
      exact other (BlockShape.blockFlatIdx_injective below' below inside' inside same)
    simpa [fitBlock, Function.update_of_ne apart] using made

-- The mantissa the encoder stores for one element of a block.
def encodedMantissa (block : FixedPointBlock width F) (arguments : EncodeArguments F)
    (lane index offset : Nat) : BitVec width :=
  let blockFlatIdx := block.blockFlatIdx lane index
  let exponentVal := encodeExponent arguments (block.exponents blockFlatIdx)
  let count := block.count index
  let bitsOfPrecision :=
    encodePrecision fp arguments width (block.stdDevs blockFlatIdx) exponentVal count
  roundElement fp (scaledElement fp block.toBlockShape arguments.floatsArray exponentVal lane index)
      bitsOfPrecision offset (elementNoise count offset) -
    integerMean fp width (block.means blockFlatIdx) exponentVal bitsOfPrecision

structure FitKept (block final : FixedPointBlock width F) : Prop where
  exponents : final.exponents = block.exponents
  means : final.means = block.means
  stdDevs : final.stdDevs = block.stdDevs

theorem floatsToMantissa_kept (block : FixedPointBlock width F) (arguments : EncodeArguments F) :
    FitKept block (block.floatsToMantissa fp arguments) := by
  have kept : ∀ arrays : BlockArrays width F,
      arrays = grid block.lanes block.numBlocks (encodeBlock fp block.toBlockShape arguments)
        block.toBlockArrays →
      arrays.exponents = block.exponents ∧ arrays.means = block.means ∧
        arrays.stdDevs = block.stdDevs := by
    intro arrays result
    rw [result]
    apply grid_keeps (P := fun arrays : BlockArrays width F =>
      arrays.exponents = block.exponents ∧ arrays.means = block.means ∧
        arrays.stdDevs = block.stdDevs)
    · simp
    · intro lane index arrays _ _ state
      simpa [encodeBlock] using state
  obtain ⟨exponents, means, stdDevs⟩ := kept _ rfl
  exact ⟨exponents, means, stdDevs⟩

theorem floatsToMantissa_correct (block : FixedPointBlock width F)
    (arguments : EncodeArguments F) :
    ∀ lane < block.lanes, ∀ index < block.numBlocks,
      (block.floatsToMantissa fp arguments).precisions (block.blockFlatIdx lane index) =
          encodePrecision fp arguments width (block.stdDevs (block.blockFlatIdx lane index))
            (encodeExponent arguments (block.exponents (block.blockFlatIdx lane index)))
            (block.count index) ∧
        ∀ offset < block.count index,
          (block.floatsToMantissa fp arguments).mantissa (block.element lane index offset) =
            encodedMantissa fp block arguments lane index offset := by
  unfold FixedPointBlock.floatsToMantissa
  apply grid_each
    (P := fun arrays : BlockArrays width F => arrays.exponents = block.exponents ∧
      arrays.means = block.means ∧ arrays.stdDevs = block.stdDevs)
    (Q := fun lane index (arrays : BlockArrays width F) =>
      arrays.precisions (block.blockFlatIdx lane index) =
          encodePrecision fp arguments width (block.stdDevs (block.blockFlatIdx lane index))
            (encodeExponent arguments (block.exponents (block.blockFlatIdx lane index)))
            (block.count index) ∧
        ∀ offset < block.count index, arrays.mantissa (block.element lane index offset) =
          encodedMantissa fp block arguments lane index offset)
  · simp
  · intro lane index arrays _ _ state
    simpa [encodeBlock] using state
  · intro lane index arrays below inside state
    obtain ⟨exponents, means, stdDevs⟩ := state
    constructor
    · simp [encodeBlock, exponents, stdDevs]
    · intro offset within
      simp only [encodeBlock, exponents, means, stdDevs]
      rw [store_written _ _ _ _ (BlockShape.element_apart below) offset within,
        stochasticRoundArray_correct _ _ _ _ _ _ within]
      rfl
  · intro lane index lane' index' arrays below inside below' inside' other state made
    have apart : block.blockFlatIdx lane' index' ≠ block.blockFlatIdx lane index := by
      intro same
      exact other (BlockShape.blockFlatIdx_injective below' below inside' inside same)
    constructor
    · simpa [encodeBlock, Function.update_of_ne apart] using made.1
    · intro offset within
      rw [← made.2 offset within]
      apply store_other
      intro position near same
      have equal := BlockShape.element_injective below below' near within same
      omega

def decodedValue (block : FixedPointBlock width F) (lane index offset : Nat) : F :=
  let blockFlatIdx := block.blockFlatIdx lane index
  fp.add
    (fp.mul (fp.ofInt (block.mantissa (block.element lane index offset)).toInt)
      (fastPow2 fp (block.exponents blockFlatIdx - block.precisions blockFlatIdx)))
    (block.means blockFlatIdx)

theorem grid_elements {α : Type} (shape : BlockShape) (value : Nat → Nat → Nat → α)
    (outputArray : Nat → α) :
    ∀ lane < shape.lanes, ∀ index < shape.numBlocks, ∀ offset < shape.count index,
      grid shape.lanes shape.numBlocks
          (fun lane index => store (shape.count index) (shape.element lane index) (value lane index))
          outputArray (shape.element lane index offset) =
        value lane index offset := by
  apply grid_each (P := fun _ => True) (Q := fun lane index (output : Nat → α) =>
    ∀ offset < shape.count index, output (shape.element lane index offset) =
      value lane index offset)
  · trivial
  · simp
  · intro lane index output below inside _ offset within
    exact store_written _ _ _ _ (BlockShape.element_apart below) offset within
  · intro lane index lane' index' output below inside below' inside' other _ made offset within
    rw [← made offset within]
    apply store_other
    intro position near same
    have equal := BlockShape.element_injective below below' near within same
    omega

theorem mantissaToFloats_correct (block : FixedPointBlock width F) (outputArray : Nat → F) :
    ∀ lane < block.lanes, ∀ index < block.numBlocks, ∀ offset < block.count index,
      block.mantissaToFloats fp outputArray (block.element lane index offset) =
        decodedValue fp block lane index offset :=
  grid_elements block.toBlockShape (decodedValue fp block) outputArray

def decodedProduct (block : FixedPointBlock width F) (otherExponent : Int)
    (lane index offset : Nat) : F :=
  let blockFlatIdx := block.blockFlatIdx lane index
  fp.add
    (fp.mul (fp.ofInt (block.mantissa (block.element lane index offset)).toInt)
      (fastPow2 fp (block.exponents blockFlatIdx - block.precisions blockFlatIdx - otherExponent)))
    (fp.mul (block.means blockFlatIdx) (fastPow2 fp (-otherExponent)))

theorem mantissaToFloatsProduct_correct (block : FixedPointBlock width F) (outputArray : Nat → F)
    (otherExponent : Int) :
    ∀ lane < block.lanes, ∀ index < block.numBlocks, ∀ offset < block.count index,
      block.mantissaToFloatsProduct fp outputArray otherExponent (block.element lane index offset) =
        decodedProduct fp block otherExponent lane index offset :=
  grid_elements block.toBlockShape (decodedProduct fp block otherExponent) outputArray

end Spec

end NpuMatmul
