import NpuMatmul.FixedPoint.Branches
import NpuMatmul.Shared.LoopNest

set_option autoImplicit false

namespace NpuMatmul

open LoopNest

inductive BlockArray where
  | mantissa
  | exponents
  | means
  | stdDevs
  | precisions
  | floats
  | temporaryBuffer (length : Nat)
  | columnMantissa (length : Nat)
  | randomNoises
deriving DecidableEq, Repr

inductive Access where
  | reads (array : BlockArray) (index : Nat)
  | writes (array : BlockArray) (index : Nat)
deriving DecidableEq, Repr

-- An int expression, undefined where its value is not an int.
def checkedInt (value : Nat) : Option Nat := if value < 2 ^ 31 then some value else none

-- How many entries the constructor asks for. Of the mantissa they are at least these, as min_bytes
-- may be more.
structure Entries where
  elements : Nat
  blocks : Nat
deriving DecidableEq, Repr

def Entries.length (entries : Entries) : BlockArray → Nat
  | .mantissa | .floats => entries.elements
  | .exponents | .means | .stdDevs | .precisions => entries.blocks
  | .temporaryBuffer length | .columnMantissa length => length
  | .randomNoises => 4

-- The int arithmetic of the constructor. num_blocks is used for exponents and in total_blocks.
def BlockShape.construct (shape : BlockShape) : Option Entries := do
  let elements ← checkedInt (shape.rows * shape.cols)
  let sum ← checkedInt ((if shape.blockColumns then shape.cols else shape.rows) + shape.blockSize)
  let numBlocks := (sum - 1) / shape.blockSize
  let totalBlocks ←
    checkedInt (if shape.blockColumns then shape.rows * numBlocks else numBlocks * shape.cols)
  some { elements := elements, blocks := totalBlocks }

namespace BlockShape

open Access

variable (shape : BlockShape)

def statAccesses (blockFlatIdx blockN : Nat) : List Access :=
  [writes .exponents blockFlatIdx, writes .means blockFlatIdx] ++
    (if 0 < blockN then [reads .means blockFlatIdx, reads .means blockFlatIdx] else []) ++
    [writes .stdDevs blockFlatIdx]

def fitRowsAccesses : List Access :=
  let numBlocksCount := (shape.cols + shape.blockSize - 1) / shape.blockSize
  nest shape.rows numBlocksCount fun rowIndex blockIndex =>
    let startCol := blockIndex * shape.blockSize
    let endCol := if startCol + shape.blockSize < shape.cols then startCol + shape.blockSize
      else shape.cols
    loop (endCol - startCol) (fun i => [reads .floats (rowIndex * shape.cols + startCol + i)]) ++
      statAccesses (rowIndex * numBlocksCount + blockIndex) (endCol - startCol)

def fitColumnsAccesses : List Access :=
  let numBlocksCount := (shape.rows + shape.blockSize - 1) / shape.blockSize
  nest shape.cols numBlocksCount fun colIndex blockIndex =>
    let startRow := blockIndex * shape.blockSize
    let endRow := if startRow + shape.blockSize < shape.rows then startRow + shape.blockSize
      else shape.rows
    loop (endRow - startRow) (fun i => [reads .floats ((startRow + i) * shape.cols + colIndex)]) ++
      statAccesses (blockIndex * shape.cols + colIndex) (endRow - startRow)

def fitAccesses : List Access :=
  if shape.blockColumns then shape.fitRowsAccesses else shape.fitColumnsAccesses

-- stochastic_round_array from input to output, of which it gets the address of the entry at base.
def roundAccesses (input output : BlockArray) (base arraySize : Nat) : List Access :=
  loop (arraySize / 4) (fun group => loop 4 fun j =>
    [reads input (4 * group + j), reads .randomNoises j,
      writes output (base + (4 * group + j))]) ++
  loop (arraySize - arraySize / 4 * 4) fun i =>
    [reads input (arraySize / 4 * 4 + i), writes output (base + (arraySize / 4 * 4 + i))]

def precisionAccesses {F : Type} (arguments : EncodeArguments F) (blockFlatIdx : Nat) :
    List Access :=
  (if arguments.fixedExponent ≠ 0 then [] else [reads .exponents blockFlatIdx]) ++
    (if 0 < arguments.forcePrecision then [] else [reads .stdDevs blockFlatIdx]) ++
    [writes .precisions blockFlatIdx]

def encodeRowsAccesses {F : Type} (arguments : EncodeArguments F) : List Access :=
  let numBlocksCount := (shape.cols + shape.blockSize - 1) / shape.blockSize
  nest shape.rows numBlocksCount fun rowIndex blockIndex =>
    let blockFlatIdx := rowIndex * numBlocksCount + blockIndex
    let startCol := blockIndex * shape.blockSize
    let endCol := if startCol + shape.blockSize < shape.cols then startCol + shape.blockSize
      else shape.cols
    let count := endCol - startCol
    let place := fun i => rowIndex * shape.cols + startCol + i
    precisionAccesses arguments blockFlatIdx ++
      loop count (fun i => [reads .floats (place i), writes (.temporaryBuffer shape.cols) i]) ++
      roundAccesses (.temporaryBuffer shape.cols) .mantissa (rowIndex * shape.cols + startCol)
        count ++
      [reads .means blockFlatIdx] ++
      loop count (fun i => [reads .mantissa (place i), writes .mantissa (place i)])

def encodeColumnsAccesses {F : Type} (arguments : EncodeArguments F) : List Access :=
  let numBlocksCount := (shape.rows + shape.blockSize - 1) / shape.blockSize
  nest shape.cols numBlocksCount fun colIndex blockIndex =>
    let blockFlatIdx := blockIndex * shape.cols + colIndex
    let startRow := blockIndex * shape.blockSize
    let endRow := if startRow + shape.blockSize < shape.rows then startRow + shape.blockSize
      else shape.rows
    let count := endRow - startRow
    precisionAccesses arguments blockFlatIdx ++
      loop count (fun i => [reads .floats (startRow * shape.cols + colIndex + i * shape.cols),
        writes (.temporaryBuffer shape.rows) i]) ++
      roundAccesses (.temporaryBuffer shape.rows) (.columnMantissa count) 0 count ++
      [reads .means blockFlatIdx] ++
      loop count (fun i => [reads (.columnMantissa count) i,
        writes .mantissa ((startRow + i) * shape.cols + colIndex)])

def encodeAccesses {F : Type} (arguments : EncodeArguments F) : List Access :=
  if shape.blockColumns then shape.encodeRowsAccesses arguments
  else shape.encodeColumnsAccesses arguments

-- mantissa_to_floats reads the mean of a block with every element, mantissa_to_floats_product
-- before the first one.
def decodeRowsAccesses (product : Bool) : List Access :=
  let numBlocksCount := (shape.cols + shape.blockSize - 1) / shape.blockSize
  nest shape.rows numBlocksCount fun rowIndex blockIndex =>
    let blockFlatIdx := rowIndex * numBlocksCount + blockIndex
    let startCol := blockIndex * shape.blockSize
    let endCol := if startCol + shape.blockSize < shape.cols then startCol + shape.blockSize
      else shape.cols
    let place := fun i => rowIndex * shape.cols + (startCol + i)
    [reads .exponents blockFlatIdx, reads .precisions blockFlatIdx] ++
      (if product then [reads .means blockFlatIdx] else []) ++
      loop (endCol - startCol) fun i => [reads .mantissa (place i)] ++
        (if product then [] else [reads .means blockFlatIdx]) ++ [writes .floats (place i)]

def decodeColumnsAccesses (product : Bool) : List Access :=
  let numBlocksCount := (shape.rows + shape.blockSize - 1) / shape.blockSize
  nest shape.cols numBlocksCount fun colIndex blockIndex =>
    let blockFlatIdx := blockIndex * shape.cols + colIndex
    let startRow := blockIndex * shape.blockSize
    let endRow := if startRow + shape.blockSize < shape.rows then startRow + shape.blockSize
      else shape.rows
    let place := fun i => (startRow + i) * shape.cols + colIndex
    [reads .exponents blockFlatIdx, reads .precisions blockFlatIdx] ++
      (if product then [reads .means blockFlatIdx] else []) ++
      loop (endRow - startRow) fun i => [reads .mantissa (place i)] ++
        (if product then [] else [reads .means blockFlatIdx]) ++ [writes .floats (place i)]

def decodeAccesses (product : Bool) : List Access :=
  if shape.blockColumns then shape.decodeRowsAccesses product
  else shape.decodeColumnsAccesses product

end BlockShape

inductive BlockMethod (F : Type) where
  | fitExponent
  | floatsToMantissa (arguments : EncodeArguments F)
  | mantissaToFloats
  | mantissaToFloatsProduct

namespace BlockMethod

variable {F : Type}

def accesses (shape : BlockShape) : BlockMethod F → List Access
  | .fitExponent => shape.fitAccesses
  | .floatsToMantissa arguments => shape.encodeAccesses arguments
  | .mantissaToFloats => shape.decodeAccesses false
  | .mantissaToFloatsProduct => shape.decodeAccesses true

def fills : BlockMethod F → List BlockArray
  | .fitExponent => [.exponents, .means, .stdDevs]
  | .floatsToMantissa _ => [.precisions, .mantissa]
  | .mantissaToFloats | .mantissaToFloatsProduct => [.floats]

end BlockMethod

end NpuMatmul
