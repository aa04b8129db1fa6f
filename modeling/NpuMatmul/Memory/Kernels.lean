import Mathlib.Algebra.Order.Group.Multiset
import Mathlib.Algebra.BigOperators.Group.Multiset.Basic
import NpuMatmul.Memory.ScratchpadSession
import NpuMatmul.Prefetch.Queue
import NpuMatmul.Shared.Completion

set_option autoImplicit false

namespace NpuMatmul

open Scratchpad

-- A FixedPointBlock, as what alloc returned for its five arrays. none is a null pointer.
structure OwnedBlock where
  rows : Int
  cols : Int
  mantissa : Option Allocation
  exponents : Option Allocation
  means : Option Allocation
  stdDevs : Option Allocation
  precisions : Option Allocation
deriving DecidableEq

structure OwnedModel where
  M : Int
  K : Int
  N : Int
  backendChoice : Int
  interpreter : Bool
  persistA : Option Allocation
  persistB : Option Allocation
  persistOut : Option Allocation
deriving DecidableEq

def held (pointer : Option Allocation) : Multiset Allocation :=
  match pointer with
  | none => 0
  | some allocation => {allocation}

def OwnedBlock.buffers (block : OwnedBlock) : Multiset Allocation :=
  held block.mantissa + held block.exponents + held block.means + held block.stdDevs +
    held block.precisions

def OwnedModel.buffers (model : OwnedModel) : Multiset Allocation :=
  held model.persistA + held model.persistB + held model.persistOut

-- What the kernels see of the Scratchpad, and what the coming calls of alloc return. The last
-- four fields say what the kernel that runs has constructed, popped, destroyed and added.
structure KernelMemory where
  live : Multiset Allocation
  answers : Nat → AllocResult
  prefetchQueue : PrefetchQueue OwnedBlock
  models : List OwnedModel
  created : Multiset OwnedBlock
  popped : Multiset OwnedBlock
  destroyed : Multiset OwnedBlock
  added : Multiset OwnedModel

-- A kernel does not return from a division by zero, nor from a pointer that is not live.
abbrev KernelM : Type → Type := StateT KernelMemory Option

structure KernelOutcome where
  loaded : Bool
  graphValid : Bool
  interpreter : Bool
  bytesA : Nat
  bytesB : Nat
  bytesOut : Nat
  invoked : Bool

-- An int that is passed for a size_t.
def sizeT (value : Int) : Nat := (value % 2 ^ 64).toNat

namespace KernelMemory

def alloc (size : Nat) : KernelM (Option Allocation) := fun s =>
  let result := s.answers 0
  let pointer := result.pointer.map fun address => ⟨address, size, result.fromHeap⟩
  some (pointer, { s with live := held pointer + s.live, answers := fun i => s.answers (i + 1) })

def free (pointer : Option Allocation) : KernelM Unit := fun s =>
  match pointer with
  | none => some ((), s)
  | some allocation =>
      if allocation ∈ s.live then some ((), { s with live := s.live.erase allocation }) else none

def quotient (dividend divisor : Int) : KernelM Int := fun s =>
  if divisor = 0 then none else some (dividend.tdiv divisor, s)

def construct (sizeofT rows cols blockSize : Int) (blockColumns : Bool) : KernelM OwnedBlock := do
  let mantissa ← alloc (sizeT (rows * cols * sizeofT))
  let numBlocks ← quotient ((if blockColumns then cols else rows) + blockSize - 1) blockSize
  let totalBlocks := if blockColumns then rows * numBlocks else numBlocks * cols
  let exponents ← alloc (sizeT (totalBlocks * 4))
  let means ← alloc (sizeT (totalBlocks * 4))
  let stdDevs ← alloc (sizeT (totalBlocks * 4))
  let precisions ← alloc (sizeT (totalBlocks * 4))
  let block :=
    { rows := rows, cols := cols, mantissa := mantissa, exponents := exponents, means := means
      stdDevs := stdDevs, precisions := precisions }
  modify fun s => { s with created := {block} + s.created }
  pure block

def destroy (block : OwnedBlock) : KernelM Unit := do
  free block.mantissa
  free block.exponents
  free block.means
  free block.stdDevs
  free block.precisions
  modify fun s => { s with destroyed := {block} + s.destroyed }

def pop : KernelM (Option OwnedBlock) := fun s =>
  match s.prefetchQueue.pop with
  | (none, _) => some (none, s)
  | (some block, rest) =>
      some (some block, { s with prefetchQueue := rest, popped := {block} + s.popped })

-- models->push_back moves the models, which leaves their buffers where they are.
def createModel (M K N backendChoice : Int) (outcome : KernelOutcome) : KernelM OwnedModel :=
  if outcome.interpreter then do
    let typeSize := if backendChoice = 3 then 4 else 2
    let persistA ← alloc (max outcome.bytesA (sizeT (M * K * typeSize)))
    let persistB ← alloc (max outcome.bytesB (sizeT (K * N * typeSize)))
    let persistOut ← alloc outcome.bytesOut
    pure { M, K, N, backendChoice, interpreter := true, persistA, persistB, persistOut }
  else
    pure { M, K, N, backendChoice, interpreter := false, persistA := none, persistB := none
           persistOut := none }

def findModel (s : KernelMemory) (M K N backendChoice : Int) : Option OwnedModel :=
  s.models.find? fun model =>
    model.M = M && model.K = K && model.N = N && model.backendChoice = backendChoice

def fetchModel (M K N backendChoice : Int) (outcome : KernelOutcome) : KernelM OwnedModel := do
  let s ← get
  match s.findModel M K N backendChoice with
  | some model => pure model
  | none => do
      let model ← createModel M K N backendChoice outcome
      modify fun s => { s with models := s.models ++ [model], added := {model} + s.added }
      pure model

def int8Engine (M K N : Int) : KernelM Unit := do
  let fixedA ← construct 1 M K K true
  let fixedB ← construct 1 N K K true
  let uA ← alloc (sizeT (M * K))
  let uB ← alloc (sizeT (N * K))
  let outBuf ← alloc (sizeT (M * N * 2))
  free uA
  free uB
  free outBuf
  destroy fixedB
  destroy fixedA

def rightBlock (K N : Int) : KernelM (OwnedBlock × Bool) := do
  let popped ← pop
  match popped with
  | some block =>
      if block.rows = K ∧ block.cols = N then pure (block, true)
      else do
        destroy block
        let fixedB ← construct 2 K N K false
        pure (fixedB, false)
  | none => do
      let fixedB ← construct 2 K N K false
      pure (fixedB, false)

-- if (!used_prefetched) delete fixed_B_ptr
def discard (fixedB : OwnedBlock) (usedPrefetched : Bool) : KernelM Unit :=
  if usedPrefetched then pure () else destroy fixedB

def int8Return (fixedA fixedB : OwnedBlock) (usedPrefetched : Bool) : KernelM Unit := do
  discard fixedB usedPrefetched
  destroy fixedA

def int8Fallback (M K N : Int) (outcome : KernelOutcome) : KernelM Unit := do
  let fixedA ← construct 2 M K K true
  let (fixedB, usedPrefetched) ← rightBlock K N
  -- An Invoke that fails returns at once; one that succeeds decodes first.
  if outcome.invoked then int8Return fixedA fixedB usedPrefetched
  else int8Return fixedA fixedB usedPrefetched

def matmulInt8 (M K N backendChoice : Int) (outcome : KernelOutcome) : KernelM Unit :=
  if outcome.loaded then
    if outcome.graphValid then int8Engine M K N else pure ()
  else do
    let model ← fetchModel M K N backendChoice outcome
    if model.interpreter && backendChoice ≠ 3 then int8Fallback M K N outcome else pure ()

def tiledRound (mBlock kBlock nBlock : Int) : KernelM Unit := do
  let uABuf ← alloc (sizeT (mBlock * kBlock * 2))
  let uBBuf ← alloc (sizeT (nBlock * kBlock))
  free uABuf
  free uBBuf

def tiledRounds (mBlock kBlock nBlock : Int) : Nat → KernelM Unit
  | 0 => pure ()
  | rounds + 1 => do
      tiledRound mBlock kBlock nBlock
      tiledRounds mBlock kBlock nBlock rounds

def tiledExecution (isValid : Bool) (mBlock kBlock nBlock kSplit : Int) : KernelM Unit :=
  if isValid then do
    let execOut ← alloc (sizeT (mBlock * nBlock * 2))
    tiledRounds mBlock kBlock nBlock kSplit.toNat
    free execOut
  else pure ()

def matmulTiled (M K N mSplit kSplit nSplit : Int) (outcome : KernelOutcome) : KernelM Unit :=
  if outcome.loaded then do
    let mBlock ← quotient M mSplit
    let kBlock ← quotient K kSplit
    let nBlock ← quotient N nSplit
    let blockA ← construct 2 M K K true
    let blockB ← construct 1 N K K true
    tiledExecution outcome.graphValid mBlock kBlock nBlock kSplit
    destroy blockB
    destroy blockA
  else pure ()

end KernelMemory

inductive MemoryCall where
  | matmulInt8 (M K N backendChoice : Int) (outcome : KernelOutcome)
  | matmulTiled (M K N mSplit kSplit nSplit : Int) (outcome : KernelOutcome)

namespace KernelMemory

def kernel : MemoryCall → KernelM Unit
  | .matmulInt8 M K N backendChoice outcome => matmulInt8 M K N backendChoice outcome
  | .matmulTiled M K N mSplit kSplit nSplit outcome =>
      matmulTiled M K N mSplit kSplit nSplit outcome

def run (s : KernelMemory) (call : MemoryCall) : Option KernelMemory :=
  (kernel call { s with created := 0, popped := 0, destroyed := 0, added := 0 }).map Prod.snd

end KernelMemory

end NpuMatmul
