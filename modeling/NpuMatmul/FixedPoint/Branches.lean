import NpuMatmul.FixedPoint.BlockSpec

set_option autoImplicit false

namespace NpuMatmul

open Loop

-- The two loop nests that each function of FixedPointBlock is written with, as they stand.
namespace Branches

section Code

variable {F : Type} (fp : FloatArith F) {width : Nat}

def rowStats (block : FixedPointBlock width F) (values : Nat → F) (rowIndex blockIndex : Nat) :
    BlockStats F :=
  let startCol := blockIndex * block.blockSize
  let endCol := if startCol + block.blockSize < block.cols then startCol + block.blockSize
    else block.cols
  forLoop (endCol - startCol)
    (fun i stats => stats.scan fp (values (rowIndex * block.cols + startCol + i))) (.empty fp)

def columnStats (block : FixedPointBlock width F) (values : Nat → F) (colIndex blockIndex : Nat) :
    BlockStats F :=
  let startRow := blockIndex * block.blockSize
  let endRow := if startRow + block.blockSize < block.rows then startRow + block.blockSize
    else block.rows
  forLoop (endRow - startRow)
    (fun i stats => stats.scan fp (values ((startRow + i) * block.cols + colIndex))) (.empty fp)

def fitRows (block : FixedPointBlock width F) (values : Nat → F) : BlockArrays width F :=
  let numBlocksCount := (block.cols + block.blockSize - 1) / block.blockSize
  grid block.rows numBlocksCount
    (fun rowIndex blockIndex arrays =>
      let stats := rowStats fp block values rowIndex blockIndex
      let blockFlatIdx := rowIndex * numBlocksCount + blockIndex
      { arrays with
        exponents := Function.update arrays.exponents blockFlatIdx stats.exponent
        means := Function.update arrays.means blockFlatIdx (stats.mean fp)
        stdDevs := Function.update arrays.stdDevs blockFlatIdx (stats.stdDev fp) })
    block.toBlockArrays

def fitColumns (block : FixedPointBlock width F) (values : Nat → F) : BlockArrays width F :=
  let numBlocksCount := (block.rows + block.blockSize - 1) / block.blockSize
  grid block.cols numBlocksCount
    (fun colIndex blockIndex arrays =>
      let stats := columnStats fp block values colIndex blockIndex
      let blockFlatIdx := blockIndex * block.cols + colIndex
      { arrays with
        exponents := Function.update arrays.exponents blockFlatIdx stats.exponent
        means := Function.update arrays.means blockFlatIdx (stats.mean fp)
        stdDevs := Function.update arrays.stdDevs blockFlatIdx (stats.stdDev fp) })
    block.toBlockArrays

def fitExponent (block : FixedPointBlock width F) (values : Nat → F) : FixedPointBlock width F :=
  { block with
    toBlockArrays := if block.blockColumns then fitRows fp block values
      else fitColumns fp block values }

def encodeRows (block : FixedPointBlock width F) (arguments : EncodeArguments F) :
    BlockArrays width F :=
  let numBlocksCount := (block.cols + block.blockSize - 1) / block.blockSize
  grid block.rows numBlocksCount
    (fun rowIndex blockIndex arrays =>
      let blockFlatIdx := rowIndex * numBlocksCount + blockIndex
      let exponentVal := encodeExponent arguments (arrays.exponents blockFlatIdx)
      let startCol := blockIndex * block.blockSize
      let endCol := if startCol + block.blockSize < block.cols then startCol + block.blockSize
        else block.cols
      let count := endCol - startCol
      let bitsOfPrecision :=
        encodePrecision fp arguments width (arrays.stdDevs blockFlatIdx) exponentVal count
      let exponentScale := fastPow2 fp (-exponentVal)
      let place := fun i => rowIndex * block.cols + startCol + i
      let temporaryBuffer := fun i => fp.mul (arguments.floatsArray (place i)) exponentScale
      let rounded := store count place
        (stochasticRoundArray fp temporaryBuffer bitsOfPrecision
          (fun i => arrays.mantissa (place i)) count)
        arrays.mantissa
      let integerMean := integerMean fp width (arrays.means blockFlatIdx) exponentVal bitsOfPrecision
      { arrays with
        precisions := Function.update arrays.precisions blockFlatIdx bitsOfPrecision
        mantissa := forLoop count
          (fun i mantissa => Function.update mantissa (place i) (mantissa (place i) - integerMean))
          rounded })
    block.toBlockArrays

-- The columns are rounded into a new array; fresh is what it held.
def encodeColumns (block : FixedPointBlock width F) (arguments : EncodeArguments F)
    (fresh : Nat → BitVec width) : BlockArrays width F :=
  let numBlocksCount := (block.rows + block.blockSize - 1) / block.blockSize
  grid block.cols numBlocksCount
    (fun colIndex blockIndex arrays =>
      let blockFlatIdx := blockIndex * block.cols + colIndex
      let exponentVal := encodeExponent arguments (arrays.exponents blockFlatIdx)
      let startRow := blockIndex * block.blockSize
      let endRow := if startRow + block.blockSize < block.rows then startRow + block.blockSize
        else block.rows
      let count := endRow - startRow
      let bitsOfPrecision :=
        encodePrecision fp arguments width (arrays.stdDevs blockFlatIdx) exponentVal count
      let exponentScale := fastPow2 fp (-exponentVal)
      let temporaryBuffer := fun i =>
        fp.mul (arguments.floatsArray (startRow * block.cols + colIndex + i * block.cols))
          exponentScale
      let columnMantissa := stochasticRoundArray fp temporaryBuffer bitsOfPrecision fresh count
      let integerMean := integerMean fp width (arrays.means blockFlatIdx) exponentVal bitsOfPrecision
      { arrays with
        precisions := Function.update arrays.precisions blockFlatIdx bitsOfPrecision
        mantissa := store count (fun i => (startRow + i) * block.cols + colIndex)
          (fun i => columnMantissa i - integerMean) arrays.mantissa })
    block.toBlockArrays

def floatsToMantissa (block : FixedPointBlock width F) (arguments : EncodeArguments F)
    (fresh : Nat → BitVec width) : FixedPointBlock width F :=
  { block with
    toBlockArrays := if block.blockColumns then encodeRows fp block arguments
      else encodeColumns fp block arguments fresh }

def decodeRows (block : FixedPointBlock width F) (value : Nat → Nat → F) (outputArray : Nat → F) :
    Nat → F :=
  let numBlocksCount := (block.cols + block.blockSize - 1) / block.blockSize
  grid block.rows numBlocksCount
    (fun rowIndex blockIndex output =>
      let blockFlatIdx := rowIndex * numBlocksCount + blockIndex
      let startCol := blockIndex * block.blockSize
      let endCol := if startCol + block.blockSize < block.cols then startCol + block.blockSize
        else block.cols
      store (endCol - startCol) (fun i => rowIndex * block.cols + (startCol + i))
        (fun i => value blockFlatIdx (rowIndex * block.cols + (startCol + i))) output)
    outputArray

def decodeColumns (block : FixedPointBlock width F) (value : Nat → Nat → F)
    (outputArray : Nat → F) : Nat → F :=
  let numBlocksCount := (block.rows + block.blockSize - 1) / block.blockSize
  grid block.cols numBlocksCount
    (fun colIndex blockIndex output =>
      let blockFlatIdx := blockIndex * block.cols + colIndex
      let startRow := blockIndex * block.blockSize
      let endRow := if startRow + block.blockSize < block.rows then startRow + block.blockSize
        else block.rows
      store (endRow - startRow) (fun i => (startRow + i) * block.cols + colIndex)
        (fun i => value blockFlatIdx ((startRow + i) * block.cols + colIndex)) output)
    outputArray

def decode (block : FixedPointBlock width F) (value : Nat → Nat → F) (outputArray : Nat → F) :
    Nat → F :=
  if block.blockColumns then decodeRows block value outputArray
  else decodeColumns block value outputArray

def mantissaToFloats (block : FixedPointBlock width F) (outputArray : Nat → F) : Nat → F :=
  decode block
    (fun blockFlatIdx index =>
      let exponentScale :=
        fastPow2 fp (block.exponents blockFlatIdx - block.precisions blockFlatIdx)
      fp.add (fp.mul (fp.ofInt (block.mantissa index).toInt) exponentScale)
        (block.means blockFlatIdx))
    outputArray

def mantissaToFloatsProduct (block : FixedPointBlock width F) (outputArray : Nat → F)
    (otherExponent : Int) : Nat → F :=
  decode block
    (fun blockFlatIdx index =>
      let exponentScale := fastPow2 fp
        (block.exponents blockFlatIdx - block.precisions blockFlatIdx - otherExponent)
      let meanPart := fp.mul (block.means blockFlatIdx) (fastPow2 fp (-otherExponent))
      fp.add (fp.mul (fp.ofInt (block.mantissa index).toInt) exponentScale) meanPart)
    outputArray

end Code

section Unified

variable {F : Type} (fp : FloatArith F) {width : Nat} (block : FixedPointBlock width F)

theorem fitExponent_unified (values : Nat → F) :
    fitExponent fp block values = block.fitExponent fp values := by
  obtain ⟨⟨rows, cols, blockSize, blockColumns⟩, arrays⟩ := block
  cases blockColumns with
  | false => rfl
  | true =>
    simp only [fitExponent, fitRows, rowStats, Nat.add_assoc, if_true]
    rfl

theorem encodeBlock_stored (shape : BlockShape) (arguments : EncodeArguments F) (lane index : Nat)
    (place : Nat → Nat) (buffer : Nat → F) (fresh : Nat → BitVec width)
    (arrays : BlockArrays width F) (places : ∀ i, place i = shape.element lane index i)
    (scaled : ∀ i, buffer i = scaledElement fp shape arguments.floatsArray
      (encodeExponent arguments (arrays.exponents (shape.blockFlatIdx lane index))) lane index i) :
    let blockFlatIdx := shape.blockFlatIdx lane index
    let exponentVal := encodeExponent arguments (arrays.exponents blockFlatIdx)
    let count := shape.count index
    let bitsOfPrecision :=
      encodePrecision fp arguments width (arrays.stdDevs blockFlatIdx) exponentVal count
    (encodeBlock fp shape arguments lane index arrays).mantissa =
      store count place
        (fun i => stochasticRoundArray fp buffer bitsOfPrecision fresh count i -
          integerMean fp width (arrays.means blockFlatIdx) exponentVal bitsOfPrecision)
        arrays.mantissa := by
  intro blockFlatIdx exponentVal count bitsOfPrecision
  have buffers : buffer =
      scaledElement fp shape arguments.floatsArray exponentVal lane index := funext scaled
  apply store_congr
  · intro i _
    exact (places i).symm
  · intro i below
    rw [buffers, stochasticRoundArray_correct fp _ _ _ _ _ below,
      stochasticRoundArray_correct fp _ _ _ _ _ below]

theorem encodeColumns_unified (arguments : EncodeArguments F) (fresh : Nat → BitVec width)
    (columns : block.blockColumns = false) :
    encodeColumns fp block arguments fresh = (block.floatsToMantissa fp arguments).toBlockArrays := by
  obtain ⟨⟨rows, cols, blockSize, blockColumns⟩, arrays⟩ := block
  subst columns
  let shape : BlockShape :=
    { rows := rows, cols := cols, blockSize := blockSize, blockColumns := false }
  apply grid_congr
  intro colIndex blockIndex arrays _ _
  have stored := encodeBlock_stored fp shape arguments colIndex blockIndex
    (fun i => (blockIndex * blockSize + i) * cols + colIndex)
    (fun i => fp.mul
      (arguments.floatsArray (blockIndex * blockSize * cols + colIndex + i * cols))
      (fastPow2 fp (-encodeExponent arguments (arrays.exponents (blockIndex * cols + colIndex)))))
    fresh arrays (fun _ => rfl) (by
      intro i
      have place : blockIndex * blockSize * cols + colIndex + i * cols =
          (blockIndex * blockSize + i) * cols + colIndex := by ring
      rw [place]
      rfl)
  exact congrArg (fun mantissa =>
    { encodeBlock fp shape arguments colIndex blockIndex arrays with mantissa := mantissa })
    stored.symm

theorem encodeRows_unified (arguments : EncodeArguments F) (rowsFirst : block.blockColumns = true) :
    encodeRows fp block arguments = (block.floatsToMantissa fp arguments).toBlockArrays := by
  obtain ⟨⟨rows, cols, blockSize, blockColumns⟩, arrays⟩ := block
  subst rowsFirst
  let shape : BlockShape :=
    { rows := rows, cols := cols, blockSize := blockSize, blockColumns := true }
  apply grid_congr
  intro rowIndex blockIndex arrays below _
  have place (i : Nat) :
      rowIndex * cols + blockIndex * blockSize + i = shape.element rowIndex blockIndex i :=
    Nat.add_assoc _ _ _
  have apart := @BlockShape.element_apart shape rowIndex blockIndex below
  have stored := encodeBlock_stored fp shape arguments rowIndex blockIndex
    (fun i => rowIndex * cols + blockIndex * blockSize + i)
    (fun i => fp.mul
      (arguments.floatsArray (rowIndex * cols + blockIndex * blockSize + i))
      (fastPow2 fp (-encodeExponent arguments
        (arrays.exponents (shape.blockFlatIdx rowIndex blockIndex)))))
    (fun i => arrays.mantissa (rowIndex * cols + blockIndex * blockSize + i)) arrays place (by
      intro i
      rw [place]
      rfl)
  have centred (mean : BitVec width) (rounded : Nat → BitVec width) :=
    @forLoop_stored (BitVec width) Nat _ (shape.count blockIndex)
      (fun i => rowIndex * cols + blockIndex * blockSize + i) rounded (· - mean) arrays.mantissa
      (by
        intro i j inside earlier
        rw [place, place]
        exact apart i j inside earlier)
  exact congrArg (fun mantissa =>
    { encodeBlock fp shape arguments rowIndex blockIndex arrays with mantissa := mantissa })
    ((centred _ _).trans stored.symm)

theorem floatsToMantissa_unified (arguments : EncodeArguments F) (fresh : Nat → BitVec width) :
    floatsToMantissa fp block arguments fresh = block.floatsToMantissa fp arguments := by
  unfold floatsToMantissa
  by_cases rowsFirst : block.blockColumns = true
  · rw [if_pos rowsFirst, encodeRows_unified fp block arguments rowsFirst]
    rfl
  · rw [if_neg rowsFirst, encodeColumns_unified fp block arguments fresh
      (Bool.eq_false_of_not_eq_true rowsFirst)]
    rfl

theorem decode_unified (value : Nat → Nat → F) (outputArray : Nat → F) :
    decode block value outputArray = grid block.lanes block.numBlocks
      (fun lane index => store (block.count index) (block.element lane index)
        fun offset => value (block.blockFlatIdx lane index) (block.element lane index offset))
      outputArray := by
  obtain ⟨⟨rows, cols, blockSize, blockColumns⟩, arrays⟩ := block
  cases blockColumns with
  | false => rfl
  | true => rfl

theorem mantissaToFloats_unified (outputArray : Nat → F) :
    mantissaToFloats fp block outputArray = block.mantissaToFloats fp outputArray :=
  decode_unified block _ outputArray

theorem mantissaToFloatsProduct_unified (outputArray : Nat → F) (otherExponent : Int) :
    mantissaToFloatsProduct fp block outputArray otherExponent =
      block.mantissaToFloatsProduct fp outputArray otherExponent :=
  decode_unified block _ outputArray

end Unified

end Branches

end NpuMatmul
