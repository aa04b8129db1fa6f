import NpuMatmul.Dispatch.MatmulPatch

set_option autoImplicit false

namespace NpuMatmul

-- What a call evaluates: an integer division, by its divisor, and the blocks M x K x N is cut into.
inductive Evaluation where
  | division (divisor : Int)
  | cut (M K N mBlock kBlock nBlock : Int)
deriving DecidableEq, Repr

abbrev Arithmetic : Type → Type := Traced Evaluation

-- A division by 0 raises in Python and is undefined in C++: nothing after it counts.
def divide (quotient : Int → Int → Int) (dividend divisor : Int) : Arithmetic Int :=
  .called (.division divisor) (if divisor = 0 then none else some (quotient dividend divisor))

def cutBlocks (quotient : Int → Int → Int) (M K N : Int) (splits : PySplits) :
    Arithmetic Unit := do
  let mBlock ← divide quotient M splits.m
  let kBlock ← divide quotient K splits.k
  let nBlock ← divide quotient N splits.n
  .called (.cut M K N mBlock kBlock nBlock) (some ())

section Blocks

structure BlockDims where
  rows : Int
  cols : Int
  blockSize : Int
  blockColumns : Bool

namespace BlockDims

variable (block : BlockDims)

def countBlocks : Arithmetic Int :=
  divide Int.tdiv ((if block.blockColumns then block.cols else block.rows) + block.blockSize - 1)
    block.blockSize

def create (numRows numColumns targetBlockSize : Int) (useBlockColumns : Bool) :
    Arithmetic BlockDims := do
  let block :=
    { rows := numRows, cols := numColumns, blockSize := targetBlockSize
      blockColumns := useBlockColumns }
  let _ ← block.countBlocks
  pure block

-- Each method counts the blocks again, and divides by nothing else.
def fitExponent : Arithmetic Int := block.countBlocks

def floatsToMantissa : Arithmetic Int := block.countBlocks

def mantissaToFloats : Arithmetic Int := block.countBlocks

def mantissaToFloatsProduct : Arithmetic Int := block.countBlocks

def methods : List (BlockDims → Arithmetic Int) :=
  [fitExponent, floatsToMantissa, mantissaToFloats, mantissaToFloatsProduct]

def quantise : Arithmetic Unit := do
  let _ ← block.fitExponent
  let _ ← block.floatsToMantissa
  pure ()

end BlockDims

end Blocks

structure Answers where
  loaded : Bool
  graphValid : Bool
  interpreter : Bool
  popped : Option (Int × Int)

section Kernels

variable (answers : Answers)

def int8Arithmetic (M K N : Int) : Arithmetic Unit := do
  let fixedA ← BlockDims.create M K K true
  fixedA.quantise
  let fixedB ← BlockDims.create N K K true
  fixedB.quantise

def fallbackArithmetic (M K N : Int) : Arithmetic Unit := do
  let fixedA ← BlockDims.create M K K true
  fixedA.quantise
  if answers.popped = some (K, N) then pure ()
  else do
    let fixedB ← BlockDims.create K N K false
    fixedB.quantise

def matmulInt8Arithmetic (M K N backendChoice : Int) : Arithmetic Unit :=
  if answers.loaded then
    if answers.graphValid then int8Arithmetic M K N else pure ()
  else if !answers.interpreter || backendChoice = 3 then pure ()
  else fallbackArithmetic answers M K N

def matmulTiledArithmetic (M K N : Int) (splits : PySplits) : Arithmetic Unit :=
  if answers.loaded then do
    cutBlocks Int.tdiv M K N splits
    let blockA ← BlockDims.create M K K true
    let blockB ← BlockDims.create N K K true
    blockA.quantise
    blockB.quantise
  else pure ()

end Kernels

section Package

def FitsInt (value : Int) : Prop := -2147483648 ≤ value ∧ value ≤ 2147483647

instance (value : Int) : Decidable (FitsInt value) := instDecidableAnd

def asInt (size : Nat) : Int := Int.bmod size 4294967296

-- An integer of Python that is passed for an int: one out of range raises TypeError.
def intArguments (values : List Int) : Arithmetic Unit :=
  .lift (if ∀ value ∈ values, FitsInt value then some () else none)

def pad (size : Nat) : Arithmetic Nat := do
  let quads ← divide Int.fdiv (size + 3) 4
  pure (quads.toNat * 4)

variable (settings : Settings)

def sizeSplit (size : Nat) : Arithmetic Int := do
  let parts ← divide Int.fdiv (size + 1023) 1024
  pure (max 1 parts)

namespace Settings

def innerSplit (k : Nat) : Arithmetic Int :=
  if 0 < settings.kLimit then do
    let parts ← divide Int.fdiv (k + settings.kLimit - 1) settings.kLimit
    pure (max 1 parts)
  else pure 1

def chooseSplits (m k n : Nat) : Arithmetic PySplits := do
  let mSplit ← settings.globalMSplit.elim (sizeSplit m) pure
  let kSplit ← settings.globalKSplit.elim (settings.innerSplit k) pure
  let nSplit ← settings.globalNSplit.elim (sizeSplit n) pure
  pure { m := mSplit, k := kSplit, n := nSplit }

def message (m k n : Nat) (splits : PySplits) : Arithmetic Unit :=
  if settings.verbose then cutBlocks Int.fdiv m k n splits else pure ()

def forwardArithmetic (answers : Answers) (backendChoice : Int) (m k n : Nat) :
    Arithmetic Unit :=
  if settings.tiled m k n then do
    let splits ← settings.chooseSplits m k n
    settings.message m k n splits
    intArguments [splits.m, splits.k, splits.n, backendChoice]
    matmulTiledArithmetic answers (asInt m) (asInt k) (asInt n) splits
  else do
    intArguments [backendChoice]
    matmulInt8Arithmetic answers (asInt m) (asInt k) (asInt n) backendChoice

def matmulPatchArithmetic (answers : Answers) (backendChoice : Int) :
    Nat → Nat → Nat → Nat → Arithmetic Unit
  | 0, _, _, _ => .raised
  | frames + 1, m, k, n => do
      let mPad ← pad m
      let kPad ← pad k
      let nPad ← pad n
      if mPad ≠ m ∨ kPad ≠ k ∨ nPad ≠ n then
        matmulPatchArithmetic answers backendChoice frames mPad kPad nPad
      else settings.forwardArithmetic answers backendChoice m k n

def prepareMatmulArithmetic (m k n : Nat) : Arithmetic Unit := do
  let m ← pad m
  let k ← pad k
  let n ← pad n
  if settings.tiled m k n then do
    let splits ← settings.chooseSplits m k n
    cutBlocks Int.fdiv m k n splits
  else pure ()

end Settings

end Package

end NpuMatmul
