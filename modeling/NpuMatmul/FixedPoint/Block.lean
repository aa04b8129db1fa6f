import NpuMatmul.FixedPoint.StochasticRound

set_option autoImplicit false

namespace NpuMatmul

open Loop

structure BlockShape where
  rows : Nat
  cols : Nat
  blockSize : Nat
  blockColumns : Bool
deriving DecidableEq, Repr

namespace BlockShape

-- The outer loops run over rows when blocks lie along the columns, over columns otherwise.
-- Both branches of the source are the same code on the indices below.
def lanes (shape : BlockShape) : Nat :=
  if shape.blockColumns then shape.rows else shape.cols

def laneLength (shape : BlockShape) : Nat :=
  if shape.blockColumns then shape.cols else shape.rows

def flatIndex (shape : BlockShape) (lane position : Nat) : Nat :=
  if shape.blockColumns then lane * shape.cols + position else position * shape.cols + lane

def numBlocks (shape : BlockShape) : Nat :=
  (shape.laneLength + shape.blockSize - 1) / shape.blockSize

def blockFlatIdx (shape : BlockShape) (lane block : Nat) : Nat :=
  if shape.blockColumns then lane * shape.numBlocks + block else block * shape.cols + lane

def start (shape : BlockShape) (block : Nat) : Nat := block * shape.blockSize

def stop (shape : BlockShape) (block : Nat) : Nat :=
  if shape.start block + shape.blockSize < shape.laneLength then
    shape.start block + shape.blockSize
  else shape.laneLength

def count (shape : BlockShape) (block : Nat) : Nat := shape.stop block - shape.start block

def element (shape : BlockShape) (lane block offset : Nat) : Nat :=
  shape.flatIndex lane (shape.start block + offset)

end BlockShape

structure BlockArrays (width : Nat) (F : Type) where
  mantissa : Nat → BitVec width
  exponents : Nat → Int
  means : Nat → F
  stdDevs : Nat → F
  precisions : Nat → Nat
deriving Inhabited

structure FixedPointBlock (width : Nat) (F : Type) extends BlockShape, BlockArrays width F

-- memory is what the allocator returned for the five arrays.
def FixedPointBlock.create {width : Nat} {F : Type} (memory : BlockArrays width F)
    (numRows numColumns targetBlockSize : Nat) (useBlockColumns : Bool) :
    FixedPointBlock width F :=
  { memory with
    rows := numRows
    cols := numColumns
    blockSize := targetBlockSize
    blockColumns := useBlockColumns }

structure BlockStats (F : Type) where
  maxBiased : Nat
  blockSum : F
  blockSumSquares : F
  blockN : Nat

section Code

variable {F : Type} (fp : FloatArith F) {width : Nat}

def biasedExponent (val : F) : Nat :=
  ((fp.toBits val &&& 0x7FFFFFFF#32) >>> 23 &&& 0xFF#32).toNat

def zeroFloat : F := fp.ofBits 0#32

def BlockStats.empty : BlockStats F :=
  { maxBiased := 0, blockSum := zeroFloat fp, blockSumSquares := zeroFloat fp, blockN := 0 }

def BlockStats.scan (stats : BlockStats F) (val : F) : BlockStats F :=
  { maxBiased := if stats.maxBiased < biasedExponent fp val then biasedExponent fp val
      else stats.maxBiased
    blockSum := fp.add stats.blockSum val
    blockSumSquares := fp.add stats.blockSumSquares (fp.mul val val)
    blockN := stats.blockN + 1 }

def BlockStats.exponent (stats : BlockStats F) : Int :=
  if 0 < stats.maxBiased then stats.maxBiased - 127 + 1 else -127

def BlockStats.mean (stats : BlockStats F) : F :=
  if 0 < stats.blockN then fp.div stats.blockSum (fp.ofInt stats.blockN) else zeroFloat fp

def BlockStats.stdDev (stats : BlockStats F) : F :=
  if 0 < stats.blockN then
    let mean := stats.mean fp
    let variance :=
      fp.sub (fp.div stats.blockSumSquares (fp.ofInt stats.blockN)) (fp.mul mean mean)
    fp.sqrt (fp.max (zeroFloat fp) variance)
  else zeroFloat fp

def blockStats (shape : BlockShape) (values : Nat → F) (lane block : Nat) : BlockStats F :=
  forLoop (shape.count block)
    (fun offset stats => stats.scan fp (values (shape.element lane block offset))) (.empty fp)

def fitBlock (shape : BlockShape) (values : Nat → F) (lane block : Nat)
    (arrays : BlockArrays width F) : BlockArrays width F :=
  let stats := blockStats fp shape values lane block
  let blockFlatIdx := shape.blockFlatIdx lane block
  { arrays with
    exponents := Function.update arrays.exponents blockFlatIdx stats.exponent
    means := Function.update arrays.means blockFlatIdx (stats.mean fp)
    stdDevs := Function.update arrays.stdDevs blockFlatIdx (stats.stdDev fp) }

def FixedPointBlock.fitExponent (block : FixedPointBlock width F) (values : Nat → F) :
    FixedPointBlock width F :=
  { block with
    toBlockArrays := grid block.lanes block.numBlocks (fitBlock fp block.toBlockShape values)
      block.toBlockArrays }

-- The other operand of the product, as the search for a precision that fits sees it.
structure OtherOperand (F : Type) where
  zSigma : F
  otherExponent : Int
  otherStdDev : F

def OtherOperand.default : OtherOperand F :=
  { zSigma := fp.ofInt 3, otherExponent := 8, otherStdDev := fp.ofBits 0x3F000000#32 }

def doesNotFit (other : OtherOperand F) (stdDev : F) (exponentVal : Int) (count bits : Nat) :
    Bool :=
  let bStdDevNorm := fp.div stdDev (fastPow2 fp exponentVal)
  let stdDevOutput :=
    fp.mul
      (fp.mul (fp.sqrt (fp.ofInt count))
        (fp.mul other.otherStdDev (fp.sub (fastPow2 fp (other.otherExponent - 1)) (fp.ofInt 1))))
      (fp.mul bStdDevNorm (fastPow2 fp bits))
  fp.greater (fp.mul other.zSigma stdDevOutput) (fp.ofInt 32767)

def fittingPrecision (doesNotFit : Nat → Bool) : Nat → Nat
  | 0 => 0
  | 1 => 1
  | bits + 2 => if doesNotFit (bits + 2) then fittingPrecision doesNotFit (bits + 1) else bits + 2

structure EncodeArguments (F : Type) where
  floatsArray : Nat → F
  fixedExponent : Int
  forcePrecision : Nat
  other : OtherOperand F

def encodeExponent (arguments : EncodeArguments F) (fitted : Int) : Int :=
  if arguments.fixedExponent ≠ 0 then arguments.fixedExponent else fitted

def encodePrecision (arguments : EncodeArguments F) (width : Nat) (stdDev : F) (exponentVal : Int)
    (count : Nat) : Nat :=
  if 0 < arguments.forcePrecision then arguments.forcePrecision
  else fittingPrecision (doesNotFit fp arguments.other stdDev exponentVal count) (width - 1)

def scaledElement (shape : BlockShape) (floatsArray : Nat → F) (exponentVal : Int)
    (lane block offset : Nat) : F :=
  fp.mul (floatsArray (shape.element lane block offset)) (fastPow2 fp (-exponentVal))

def integerMean (width : Nat) (mean : F) (exponentVal : Int) (bitsOfPrecision : Nat) :
    BitVec width :=
  fp.toSigned width (fp.round (fp.mul mean (fastPow2 fp (-exponentVal + bitsOfPrecision))))

def encodeBlock (shape : BlockShape) (arguments : EncodeArguments F) (lane block : Nat)
    (arrays : BlockArrays width F) : BlockArrays width F :=
  let blockFlatIdx := shape.blockFlatIdx lane block
  let exponentVal := encodeExponent arguments (arrays.exponents blockFlatIdx)
  let count := shape.count block
  let bitsOfPrecision :=
    encodePrecision fp arguments width (arrays.stdDevs blockFlatIdx) exponentVal count
  let temporaryBuffer := scaledElement fp shape arguments.floatsArray exponentVal lane block
  -- The row branch rounds in place, the column branch into a fresh array of the same length.
  let rounded := stochasticRoundArray fp temporaryBuffer bitsOfPrecision
    (fun offset => arrays.mantissa (shape.element lane block offset)) count
  let integerMean := integerMean fp width (arrays.means blockFlatIdx) exponentVal bitsOfPrecision
  { arrays with
    precisions := Function.update arrays.precisions blockFlatIdx bitsOfPrecision
    mantissa := store count (shape.element lane block) (fun offset => rounded offset - integerMean)
      arrays.mantissa }

def FixedPointBlock.floatsToMantissa (block : FixedPointBlock width F)
    (arguments : EncodeArguments F) : FixedPointBlock width F :=
  { block with
    toBlockArrays := grid block.lanes block.numBlocks (encodeBlock fp block.toBlockShape arguments)
      block.toBlockArrays }

def decodeBlock (block : FixedPointBlock width F) (lane index : Nat) (outputArray : Nat → F) :
    Nat → F :=
  let blockFlatIdx := block.blockFlatIdx lane index
  let exponentScale :=
    fastPow2 fp (block.exponents blockFlatIdx - block.precisions blockFlatIdx)
  store (block.count index) (block.element lane index)
    (fun offset =>
      fp.add (fp.mul (fp.ofInt (block.mantissa (block.element lane index offset)).toInt)
        exponentScale) (block.means blockFlatIdx))
    outputArray

def FixedPointBlock.mantissaToFloats (block : FixedPointBlock width F) (outputArray : Nat → F) :
    Nat → F :=
  grid block.lanes block.numBlocks (decodeBlock fp block) outputArray

-- The same for a block that holds a product: the scale of the other operand comes off too.
def decodeProductBlock (block : FixedPointBlock width F) (otherExponent : Int) (lane index : Nat)
    (outputArray : Nat → F) : Nat → F :=
  let blockFlatIdx := block.blockFlatIdx lane index
  let exponentScale :=
    fastPow2 fp (block.exponents blockFlatIdx - block.precisions blockFlatIdx - otherExponent)
  let meanPart := fp.mul (block.means blockFlatIdx) (fastPow2 fp (-otherExponent))
  store (block.count index) (block.element lane index)
    (fun offset =>
      fp.add (fp.mul (fp.ofInt (block.mantissa (block.element lane index offset)).toInt)
        exponentScale) meanPart)
    outputArray

def FixedPointBlock.mantissaToFloatsProduct (block : FixedPointBlock width F)
    (outputArray : Nat → F) (otherExponent : Int) : Nat → F :=
  grid block.lanes block.numBlocks (decodeProductBlock fp block otherExponent) outputArray

end Code

end NpuMatmul
