import NpuMatmul.Pipeline.KernelSpec
import NpuMatmul.Prefetch.Queue

set_option autoImplicit false

namespace NpuMatmul

open Loop

def columnShape (K N : Nat) : BlockShape :=
  { rows := K, cols := N, blockSize := K, blockColumns := false }

structure PrefetchedBlock (F : Type) where
  block : FixedPointBlock 16 F
  fitted : Nat → F
  rounded : Nat → F

inductive PrefetchStage where
  | construct
  | fitExponent
  | floatsToMantissa
  | push
deriving DecidableEq, Repr

-- A task of prefetch_weights before the stage it is at. Its block is constructed in the first.
structure WeightTask (F : Type) extends PrefetchedBlock F where
  ptr : Nat
  rows : Nat
  cols : Nat
  stage : PrefetchStage

structure PrefetchState (F : Type) where
  memory : Nat → F
  tasks : List (WeightTask F)
  prefetchQueue : PrefetchQueue (PrefetchedBlock F)

-- A call of matmul_int8 on an engine that is not loaded: its operands by address, what the
-- allocator hands out, whether fetch_model gave it an interpreter and how Invoke answers.
structure FallbackCall (F : Type) where
  A : Nat
  B : Nat
  C : Nat
  M : Nat
  K : Nat
  N : Nat
  backendChoice : Int
  arraysA : BlockArrays 16 F
  arraysB : BlockArrays 16 F
  interpreter : Bool
  invoke : List (BitVec 16) → List (BitVec 16) → Option (Nat → Int)
  invokeFloats : List F → List F → Option (Nat → F)

inductive PrefetchAction (F : Type) where
  | prefetchWeights (weightPtrs rows cols : List Nat) (arrays : Nat → BlockArrays 16 F)
  | runTask (index : Nat)
  | write (address : Nat) (value : F)
  | matmul (call : FallbackCall F)

def PrefetchAction.prefetchSquares {F : Type} (weightPtrs nextSizes : List Nat)
    (arrays : Nat → BlockArrays 16 F) : PrefetchAction F :=
  .prefetchWeights weightPtrs nextSizes nextSizes arrays

section Code

variable {F : Type} (fp : FloatArith F)

def encodeEight (values : Nat → F) : EncodeArguments F :=
  { floatsArray := values, fixedExponent := 0, forcePrecision := 8, other := .default fp }

def WeightTask.start (ptr rows cols : Nat) (arrays : BlockArrays 16 F) : WeightTask F :=
  { block := .create arrays rows cols rows false
    fitted := fun _ => zeroFloat fp
    rounded := fun _ => zeroFloat fp
    ptr := ptr
    rows := rows
    cols := cols
    stage := .construct }

def WeightTask.advance (task : WeightTask F) (memory : Nat → F) : WeightTask F :=
  let weights := fun i => memory (task.ptr + i)
  match task.stage with
  | .construct => { task with stage := .fitExponent }
  | .fitExponent =>
      { task with
        block := task.block.fitExponent fp weights
        fitted := weights
        stage := .floatsToMantissa }
  | .floatsToMantissa =>
      { task with
        block := task.block.floatsToMantissa fp (encodeEight fp weights)
        rounded := weights
        stage := .push }
  | .push => task

namespace PrefetchState

def start (memory : Nat → F) : PrefetchState F :=
  { memory := memory, tasks := [], prefetchQueue := { queue := [] } }

-- The loop ends with the shortest of the three vectors.
def prefetchWeights (s : PrefetchState F) (weightPtrs rows cols : List Nat)
    (arrays : Nat → BlockArrays 16 F) : PrefetchState F :=
  { s with
    tasks := s.tasks ++ (weightPtrs.zip (rows.zip cols)).mapIdx fun i entry =>
      .start fp entry.1 entry.2.1 entry.2.2 (arrays i) }

-- The constructor divides by the block size, which is the number of rows.
def runTask (s : PrefetchState F) (index : Nat) : Option (PrefetchState F) :=
  match s.tasks[index]? with
  | none => none
  | some task =>
      if task.stage = .construct ∧ task.rows = 0 then none
      else if task.stage = .push then
        some { s with
          tasks := s.tasks.eraseIdx index
          prefetchQueue := s.prefetchQueue.push task.toPrefetchedBlock }
      else some { s with tasks := s.tasks.set index (task.advance fp s.memory) }

def freshOperand (s : PrefetchState F) (call : FallbackCall F) : FixedPointBlock 16 F :=
  encoded fp call.arraysB (columnShape call.K call.N) (fun i => s.memory (call.B + i)) 0 8

-- A popped block of another shape is deleted.
def rightOperand (s : PrefetchState F) (call : FallbackCall F) : FixedPointBlock 16 F :=
  match s.prefetchQueue.pop.1 with
  | some popped =>
      if popped.block.rows = call.K ∧ popped.block.cols = call.N then popped.block
      else s.freshOperand fp call
  | none => s.freshOperand fp call

end PrefetchState

def copied {α : Type} (count : Nat) (source : Nat → α) : List α := (List.range count).map source

def dequantizedFallback (blockA blockB : BlockArrays 16 F) (K i j : Nat) (output : Int) : F :=
  let totalExp := blockA.exponents i + blockB.exponents j
  let totalPrec : Int := blockA.precisions i + blockB.precisions j
  let scale := fastPow2 fp (totalExp - totalPrec)
  let correction := fp.mul (fp.mul (fp.ofInt K) (blockA.means i)) (blockB.means j)
  fp.add (fp.mul (fp.ofInt output) scale) correction

def writeBack (memory : Nat → F) (C : Nat) (result : (Nat → F) → Nat → F) : Nat → F :=
  fun address =>
    if C ≤ address then result (fun i => memory (C + i)) (address - C) else memory address

namespace PrefetchState

def matmulInt8Quantised (s : PrefetchState F) (call : FallbackCall F) : PrefetchState F :=
  let fixedA := encoded fp call.arraysA (rowShape call.M call.K) (fun i => s.memory (call.A + i)) 0 8
  let fixedB := s.rightOperand fp call
  let s := { s with prefetchQueue := s.prefetchQueue.pop.2 }
  match call.invoke (copied (call.M * call.K) fixedA.mantissa)
      (copied (call.K * call.N) fixedB.mantissa) with
  | none => s
  | some output =>
      { s with
        memory := writeBack s.memory call.C
          (updateCells call.M call.N call.N fun i j _ =>
            dequantizedFallback fp fixedA.toBlockArrays fixedB.toBlockArrays call.K i j
              (output (i * call.N + j))) }

def matmulInt8Floats (s : PrefetchState F) (call : FallbackCall F) : PrefetchState F :=
  match call.invokeFloats (copied (call.M * call.K) fun i => s.memory (call.A + i))
      (copied (call.K * call.N) fun i => s.memory (call.B + i)) with
  | none => s
  | some output =>
      { s with
        memory := writeBack s.memory call.C (store (call.M * call.N) id output) }

-- With K = 0 the constructor of fixed_A divides by zero.
def matmulInt8 (s : PrefetchState F) (call : FallbackCall F) : Option (PrefetchState F) :=
  if !call.interpreter then some s
  else if call.backendChoice = 3 then some (s.matmulInt8Floats call)
  else if call.K = 0 then none
  else some (s.matmulInt8Quantised fp call)

def step (s : PrefetchState F) : PrefetchAction F → Option (PrefetchState F)
  | .prefetchWeights weightPtrs rows cols arrays =>
      some (s.prefetchWeights fp weightPtrs rows cols arrays)
  | .runTask index => s.runTask fp index
  | .write address value => some { s with memory := Function.update s.memory address value }
  | .matmul call => s.matmulInt8 fp call

end PrefetchState

end Code

end NpuMatmul
