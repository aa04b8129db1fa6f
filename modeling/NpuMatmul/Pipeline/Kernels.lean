import NpuMatmul.FixedPoint.Encoding
import NpuMatmul.Pipeline.FullyConnected

set_option autoImplicit false

namespace NpuMatmul

open Loop

-- Both kernels hold each operand with one block per row.
def rowShape (rows K : Nat) : BlockShape :=
  { rows := rows, cols := K, blockSize := K, blockColumns := true }

structure Splits where
  m : Nat
  k : Nat
  n : Nat
deriving DecidableEq, Repr

def whole : Splits := { m := 1, k := 1, n := 1 }

section Code

variable {F : Type} (fp : FloatArith F)

def transposed (B : Nat → F) (N K : Nat) (buffer : Nat → F) : Nat → F :=
  grid N K (fun r c buffer => Function.update buffer (r * K + c) (B (c * N + r))) buffer

def packCodes {width : Nat} (mantissa : Nat → BitVec width) (rows K kBlock step : Nat)
    (buffer : Nat → BitVec width) : Nat → BitVec width :=
  grid rows kBlock
    (fun r c buffer => Function.update buffer (r * kBlock + c)
      (mantissa (r * K + step * kBlock + c) + BitVec.ofNat width 127))
    buffer

def updateCells {α : Type} (mBlock nBlock N : Nat) (change : Nat → Nat → α → α) (C : Nat → α) :
    Nat → α :=
  grid mBlock nBlock
    (fun r c C => Function.update C (r * N + c) (change r c (C (r * N + c)))) C

def clearCells (count : Nat) (C : Nat → F) : Nat → F :=
  store count id (fun _ => zeroFloat fp) C

def dequantized {width : Nat} (blockA : BlockArrays width F) (blockB : BlockArrays 8 F)
    (kBlock r c : Nat) (rawValU16 : BitVec 16) : F :=
  let totalExp := blockA.exponents r + blockB.exponents c
  let totalPrec : Int := blockA.precisions r + blockB.precisions c
  let scale := fastPow2 fp (totalExp - totalPrec)
  let rawVal := fp.ofInt (rawValU16.toNat - 32768)
  let correction := fp.mul (fp.mul (fp.ofInt kBlock) (blockA.means r)) (blockB.means c)
  fp.add (fp.mul rawVal scale) correction

-- What the memory handed out during one call holds; the staging buffers by round.
structure TiledMemory (F : Type) where
  blockA : BlockArrays 16 F
  blockB : BlockArrays 8 F
  uABuf : Nat → Nat → BitVec 16
  uBBuf : Nat → Nat → BitVec 8
deriving Inhabited

def tiledBlockA (memory : TiledMemory F) (A : Nat → F) (M K : Nat) : FixedPointBlock 16 F :=
  encoded fp memory.blockA (rowShape M K) A 0 8

def tiledBlockB (memory : TiledMemory F) (B : Nat → F) (K N : Nat) : FixedPointBlock 8 F :=
  encoded fp memory.blockB (rowShape N K) (transposed B N K fun _ => zeroFloat fp) 0 8

def tiledCall (memory : TiledMemory F) (A B : Nat → F) (M K N : Nat) (splits : Splits)
    (step : Nat) : FullyConnectedCall :=
  let mBlock := M / splits.m
  let kBlock := K / splits.k
  let nBlock := N / splits.n
  let uABuf :=
    packCodes (tiledBlockA fp memory A M K).mantissa mBlock K kBlock step (memory.uABuf step)
  let uBBuf :=
    packCodes (tiledBlockB fp memory B K N).mantissa nBlock K kBlock step (memory.uBBuf step)
  fullyConnectedCall mBlock kBlock nBlock (bytesOf (wordBytes uABuf) (mBlock * kBlock * 2))
    (bytesOf uBBuf (nBlock * kBlock))

-- matmul_tiled on a loaded engine whose graph is valid and executes.
def matmulTiled (backend : Backend) (memory : TiledMemory F) (A B C : Nat → F) (M K N : Nat)
    (splits : Splits) : Nat → F :=
  let mBlock := M / splits.m
  let kBlock := K / splits.k
  let nBlock := N / splits.n
  let blockA := tiledBlockA fp memory A M K
  let blockB := tiledBlockB fp memory B K N
  let C := clearCells fp (M * N) C
  forLoop splits.k
    (fun step C =>
      let execOut := backend (tiledCall fp memory A B M K N splits step)
      updateCells mBlock nBlock N
        (fun r c value => fp.add value
          (dequantized fp blockA.toBlockArrays blockB.toBlockArrays kBlock r c
            (execOut (r * nBlock + c)))) C)
    C

-- uA is what the bytes from u_A on hold when the graph executes; the kernel writes the first
-- M * K of them.
structure Int8Memory (F : Type) where
  blockA : BlockArrays 8 F
  blockB : BlockArrays 8 F
  sliceB : Nat → F
  uA : Nat → BitVec 8
  uB : Nat → BitVec 8
deriving Inhabited

def int8BlockA (memory : Int8Memory F) (A : Nat → F) (M K : Nat) : FixedPointBlock 8 F :=
  encoded fp memory.blockA (rowShape M K) A 0 8

def int8BlockB (memory : Int8Memory F) (B : Nat → F) (K N : Nat) : FixedPointBlock 8 F :=
  encoded fp memory.blockB (rowShape N K) (transposed B N K memory.sliceB) 0 8

-- execute sets dataSize from the tensors' declared types, in both of its modes.
def int8Call (memory : Int8Memory F) (A B : Nat → F) (M K N : Nat) : FullyConnectedCall :=
  let uA := store (M * K) id (fun i => (int8BlockA fp memory A M K).mantissa i + 127#8) memory.uA
  let uB := store (N * K) id (fun i => (int8BlockB fp memory B K N).mantissa i + 127#8) memory.uB
  fullyConnectedCall M K N
    (bytesOf uA (M * K * getDataTypeSize (tensorA M K).dataType))
    (bytesOf uB (N * K * getDataTypeSize (tensorB N K).dataType))

def matmulInt8 (backend : Backend) (memory : Int8Memory F) (A B C : Nat → F) (M K N : Nat) :
    Nat → F :=
  let blockA := int8BlockA fp memory A M K
  let blockB := int8BlockB fp memory B K N
  let outBuf := backend (int8Call fp memory A B M K N)
  updateCells M N N
    (fun i j _ => dequantized fp blockA.toBlockArrays blockB.toBlockArrays K i j
      (outBuf (i * N + j))) C

end Code

end NpuMatmul
