import NpuMatmul.FixedPoint.LaneThreads
import NpuMatmul.Pipeline.KernelSpec

set_option autoImplicit false

namespace NpuMatmul

open LoopNest Loop Threads

section Code

variable {F : Type} (fp : FloatArith F)

-- The rows of C that matmul_tiled adds to, and those that matmul_int8 assigns.
def addRowCode (mBlock nBlock N : Nat) (added : Nat → Nat → F) (r : Nat) : FillCode F :=
  if r < mBlock then
    loop nBlock fun c =>
      [.load (r * N + c) fun value _ => value, .store (r * N + c) fun value =>
        fp.add value (added r c)]
  else []

def assignRowCode (M N : Nat) (assigned : Nat → Nat → F) (i : Nat) : FillCode F :=
  if i < M then loop N fun j => [.store (i * N + j) fun _ => assigned i j] else []

end Code

section Fill

variable {F : Type} {fp : FloatArith F} {schedule : List Nat} {own : Nat → F} {array : Nat → F}

theorem rowCells_apart {rows N : Nat} {body : Nat → Nat → FillCode F} {nBlock : Nat}
    (narrow : nBlock ≤ N)
    (within : ∀ r c, Within (fun cell => cell = r * N + c) (body r c)) :
    RaceFree fun r => if r < rows then loop nBlock (body r) else [] := by
  apply raceFree_owned (n := rows) (fun r cell => ∃ c < nBlock, cell = r * N + c)
  · intro r out
    exact if_neg (not_lt.mpr out)
  · intro r below
    rw [if_pos below]
    apply within_loop
    intro c inside cell touches
    exact ⟨c, inside, within r c cell touches⟩
  · rintro r below other below' cell ⟨c, inside, rfl⟩ ⟨c', inside', same⟩
    exact (rowMajor_injective (by omega) (by omega) same).1

theorem rowThreads_memory {rows N : Nat} {body : Nat → Nat → FillCode F} {nBlock : Nat}
    {change : Nat → Nat → F → F} (narrow : nBlock ≤ N)
    (within : ∀ r c, Within (fun cell => cell = r * N + c) (body r c))
    (changes : ∀ r c own (array : Nat → F),
      (execAll (body r c) { own := own, memory := array }).memory =
        Function.update array (r * N + c) (change r c (array (r * N + c))))
    (finished : (fillThreads (fun r => if r < rows then loop nBlock (body r) else []) own schedule
      array).Finished) :
    (fillThreads (fun r => if r < rows then loop nBlock (body r) else []) own schedule
      array).memory = updateCells rows nBlock N change array := by
  apply parallelFor_memory id (rowCells_apart narrow within) (fun r out => if_neg (not_lt.mpr out))
    _ finished
  intro r below own array
  rw [if_pos below]
  apply loop_simulated id
  intro c inside own array
  exact changes r c own array

theorem addRowThreads_memory {mBlock nBlock N : Nat} {added : Nat → Nat → F} (narrow : nBlock ≤ N)
    (finished : (fillThreads (addRowCode fp mBlock nBlock N added) own schedule array).Finished) :
    (fillThreads (addRowCode fp mBlock nBlock N added) own schedule array).memory =
      updateCells mBlock nBlock N (fun r c value => fp.add value (added r c)) array := by
  apply rowThreads_memory narrow _ _ finished
  · intro r c
    simp [Instruction.touched]
  · intro r c own array
    rfl

theorem assignRowThreads_memory {M N : Nat} {assigned : Nat → Nat → F}
    (finished : (fillThreads (assignRowCode M N assigned) own schedule array).Finished) :
    (fillThreads (assignRowCode M N assigned) own schedule array).memory =
      updateCells M N N (fun i j _ => assigned i j) array := by
  apply rowThreads_memory le_rfl _ _ finished
  · intro r c
    simp [Instruction.touched]
  · intro r c own array
    rfl

end Fill

section Encoded

variable {F : Type} (fp : FloatArith F) {width : Nat}

-- How the threads of fit_exponent and of floats_to_mantissa take turns, and what their locals hold
-- when they start.
structure EncodeSchedule (width : Nat) (F : Type) where
  fit : List Nat
  fitLocals : Nat → FitLocals F
  encode : List Nat
  encodeLocals : Nat → EncodeLocals width F

variable (schedule : EncodeSchedule width F) (memory : BlockArrays width F) (shape : BlockShape)
  (values : Nat → F)

def eightBits (values : Nat → F) : EncodeArguments F :=
  { floatsArray := values, fixedExponent := 0, forcePrecision := 8, other := .default fp }

def fittingThreads : Running Nat (FitLocals F) (BlockCell.Value width F) :=
  (FixedPointBlock.create memory shape.rows shape.cols shape.blockSize
    shape.blockColumns).fitThreads fp values schedule.fitLocals schedule.fit

def encodingThreads : Running Nat (EncodeLocals width F) (BlockCell.Value width F) :=
  (FixedPointBlock.create (.ofMemory (fittingThreads fp schedule memory shape values).memory)
    shape.rows shape.cols shape.blockSize shape.blockColumns).encodeThreads fp
      (eightBits fp values) schedule.encodeLocals schedule.encode

def encodedArrays : BlockArrays width F :=
  .ofMemory (encodingThreads fp schedule memory shape values).memory

structure EncodeFinished : Prop where
  fitted : (fittingThreads fp schedule memory shape values).Finished
  encoded : (encodingThreads fp schedule memory shape values).Finished

variable {fp schedule memory shape values}

theorem encodedArrays_interleaved (finished : EncodeFinished fp schedule memory shape values) :
    encodedArrays fp schedule memory shape values =
      (encoded fp memory shape values 0 8).toBlockArrays := by
  have fitted := fitThreads_memory fp _ values schedule.fitLocals schedule.fit finished.fitted
  have encoded := encodeThreads_memory fp _ (eightBits fp values) schedule.encodeLocals
    schedule.encode finished.encoded
  unfold encodedArrays encodingThreads fittingThreads
  unfold encodingThreads fittingThreads at encoded
  rw [encoded, fitted]
  rfl

end Encoded

section Kernels

variable {F : Type} (fp : FloatArith F)

structure TiledSchedule (F : Type) where
  blockA : EncodeSchedule 16 F
  blockB : EncodeSchedule 8 F
  rows : Nat → List Nat
  rowLocals : Nat → Nat → F

def tiledArraysA (schedule : TiledSchedule F) (memory : TiledMemory F) (A : Nat → F) (M K : Nat) :
    BlockArrays 16 F :=
  encodedArrays fp schedule.blockA memory.blockA (rowShape M K) A

def tiledArraysB (schedule : TiledSchedule F) (memory : TiledMemory F) (B : Nat → F) (K N : Nat) :
    BlockArrays 8 F :=
  encodedArrays fp schedule.blockB memory.blockB (rowShape N K)
    (transposed B N K fun _ => zeroFloat fp)

def tiledRound (backend : Backend) (schedule : TiledSchedule F) (memory : TiledMemory F)
    (A B : Nat → F) (M K N : Nat) (splits : Splits) (step : Nat) (C : Nat → F) :
    Running Nat F fun _ : Nat => F :=
  let mBlock := M / splits.m
  let kBlock := K / splits.k
  let nBlock := N / splits.n
  let blockA := tiledArraysA fp schedule memory A M K
  let blockB := tiledArraysB fp schedule memory B K N
  let uABuf := packCodes blockA.mantissa mBlock K kBlock step (memory.uABuf step)
  let uBBuf := packCodes blockB.mantissa nBlock K kBlock step (memory.uBBuf step)
  let execOut := backend (fullyConnectedCall mBlock kBlock nBlock
    (bytesOf (wordBytes uABuf) (mBlock * kBlock * 2)) (bytesOf uBBuf (nBlock * kBlock)))
  fillThreads
    (addRowCode fp mBlock nBlock N fun r c =>
      dequantized fp blockA blockB kBlock r c (execOut (r * nBlock + c)))
    (schedule.rowLocals step) (schedule.rows step) C

def matmulTiledThreads (backend : Backend) (schedule : TiledSchedule F) (memory : TiledMemory F)
    (A B C : Nat → F) (M K N : Nat) (splits : Splits) : Nat → F :=
  forLoop splits.k
    (fun step C => (tiledRound fp backend schedule memory A B M K N splits step C).memory)
    (clearCells fp (M * N) C)

structure TiledFinished (backend : Backend) (schedule : TiledSchedule F) (memory : TiledMemory F)
    (A B : Nat → F) (M K N : Nat) (splits : Splits) : Prop where
  blockA : EncodeFinished fp schedule.blockA memory.blockA (rowShape M K) A
  blockB : EncodeFinished fp schedule.blockB memory.blockB (rowShape N K)
    (transposed B N K fun _ => zeroFloat fp)
  rows : ∀ step < splits.k, ∀ C : Nat → F,
    (tiledRound fp backend schedule memory A B M K N splits step C).Finished

structure Int8Schedule (F : Type) where
  blockA : EncodeSchedule 8 F
  blockB : EncodeSchedule 8 F
  rows : List Nat
  rowLocals : Nat → F

def int8Rows (backend : Backend) (schedule : Int8Schedule F) (memory : Int8Memory F)
    (A B C : Nat → F) (M K N : Nat) : Running Nat F fun _ : Nat => F :=
  let blockA := encodedArrays fp schedule.blockA memory.blockA (rowShape M K) A
  let blockB := encodedArrays fp schedule.blockB memory.blockB (rowShape N K)
    (transposed B N K memory.sliceB)
  let uA := store (M * K) id (fun i => blockA.mantissa i + 127#8) memory.uA
  let uB := store (N * K) id (fun i => blockB.mantissa i + 127#8) memory.uB
  let outBuf := backend (fullyConnectedCall M K N
    (bytesOf uA (M * K * getDataTypeSize (tensorA M K).dataType))
    (bytesOf uB (N * K * getDataTypeSize (tensorB N K).dataType)))
  fillThreads
    (assignRowCode M N fun i j => dequantized fp blockA blockB K i j (outBuf (i * N + j)))
    schedule.rowLocals schedule.rows C

structure Int8Finished (backend : Backend) (schedule : Int8Schedule F) (memory : Int8Memory F)
    (A B C : Nat → F) (M K N : Nat) : Prop where
  blockA : EncodeFinished fp schedule.blockA memory.blockA (rowShape M K) A
  blockB : EncodeFinished fp schedule.blockB memory.blockB (rowShape N K)
    (transposed B N K memory.sliceB)
  rows : (int8Rows fp backend schedule memory A B C M K N).Finished

variable {fp}

theorem matmulTiled_interleaved (backend : Backend) (schedule : TiledSchedule F)
    (memory : TiledMemory F) (A B C : Nat → F) (M K N : Nat) (splits : Splits)
    (finished : TiledFinished fp backend schedule memory A B M K N splits) :
    matmulTiledThreads fp backend schedule memory A B C M K N splits =
      matmulTiled fp backend memory A B C M K N splits := by
  apply forLoop_congr
  intro step C below
  have narrow : N / splits.n ≤ N := Nat.div_le_self N splits.n
  have ended := addRowThreads_memory narrow (finished.rows step below C)
  rw [tiledRound, ended, tiledArraysA, tiledArraysB, encodedArrays_interleaved finished.blockA,
    encodedArrays_interleaved finished.blockB]
  rfl

theorem matmulInt8_interleaved (backend : Backend) (schedule : Int8Schedule F)
    (memory : Int8Memory F) (A B C : Nat → F) (M K N : Nat)
    (finished : Int8Finished fp backend schedule memory A B C M K N) :
    (int8Rows fp backend schedule memory A B C M K N).memory =
      matmulInt8 fp backend memory A B C M K N := by
  have ended := assignRowThreads_memory finished.rows
  rw [int8Rows, ended, encodedArrays_interleaved finished.blockA,
    encodedArrays_interleaved finished.blockB]
  rfl

-- Both kernels write the same C on any threads as on one.
theorem kernels_interleaved (backend : Backend) (tiled : TiledSchedule F) (int8 : Int8Schedule F)
    (tiledMemory : TiledMemory F) (int8Memory : Int8Memory F) (A B C : Nat → F) (M K N : Nat)
    (splits : Splits)
    (tiledFinished : TiledFinished fp backend tiled tiledMemory A B M K N splits)
    (int8Finished : Int8Finished fp backend int8 int8Memory A B C M K N) :
    matmulTiledThreads fp backend tiled tiledMemory A B C M K N splits =
        matmulTiled fp backend tiledMemory A B C M K N splits ∧
      (int8Rows fp backend int8 int8Memory A B C M K N).memory =
        matmulInt8 fp backend int8Memory A B C M K N :=
  ⟨matmulTiled_interleaved backend tiled tiledMemory A B C M K N splits tiledFinished,
    matmulInt8_interleaved backend int8 int8Memory A B C M K N int8Finished⟩

section TwoByTwo

theorem addRowThreads_finished (mBlock nBlock N : Nat) (added : Nat → Nat → ℚ) (own : Nat → ℚ)
    (array : Nat → ℚ) :
    (fillThreads (addRowCode (exact default) mBlock nBlock N added) own
      (roundRobin mBlock (nBlock * 2)) array).Finished := by
  apply roundRobin_finished (fun r out => if_neg (not_lt.mpr out))
  intro r inside
  simp [inside, loop]

theorem assignRowThreads_finished (M N : Nat) (assigned : Nat → Nat → ℚ) (own : Nat → ℚ)
    (array : Nat → ℚ) :
    (fillThreads (assignRowCode M N assigned) own (roundRobin M N) array).Finished := by
  apply roundRobin_finished (fun r out => if_neg (not_lt.mpr out))
  intro r inside
  simp [inside, loop]

def turnByTurn (width : Nat) : EncodeSchedule width ℚ :=
  { fit := roundRobin 2 40
    fitLocals := fun _ => ⟨.empty (exact default), 0, 0⟩
    encode := roundRobin 2 40
    encodeLocals := fun _ => ⟨0, 0, fun _ => 0, fun _ => 0, 0, 0⟩ }

theorem turnByTurn_finished {width : Nat} (memory : BlockArrays width ℚ) (values : Nat → ℚ) :
    EncodeFinished (exact default) (turnByTurn width) memory (rowShape 2 2) values := by
  have two {lane : Nat} (below : lane < (rowShape 2 2).lanes) : lane = 0 ∨ lane = 1 := by
    change lane < 2 at below
    omega
  constructor
  · refine roundRobin_finished (fitCode_idle (exact default) (rowShape 2 2) values) ?_ _ _
    intro lane below
    rcases two below with rfl | rfl <;> exact Nat.le_of_ble_eq_true rfl
  · refine roundRobin_finished
      (encodeCode_idle (exact default) (rowShape 2 2) (eightBits (exact default) values)) ?_ _ _
    intro lane below
    rcases two below with rfl | rfl <;> exact Nat.le_of_ble_eq_true rfl

-- Two rows, two columns and two blocks of K, the rows taking turns access by access.
theorem kernels_interleaved_two :
    let A : Nat → ℚ := fun i => i + 1
    matmulTiledThreads (exact default) (fun _ _ => 0)
        { blockA := turnByTurn 16, blockB := turnByTurn 8,
          rows := fun _ => roundRobin 2 4, rowLocals := fun _ _ => 0 } default A A (fun _ => 7)
        2 2 2 { m := 1, k := 2, n := 1 } =
      matmulTiled (exact default) (fun _ _ => 0) default A A (fun _ => 7) 2 2 2
        { m := 1, k := 2, n := 1 } := by
  intro A
  have tiled : TiledFinished (exact default) (fun _ _ => 0)
      { blockA := turnByTurn 16, blockB := turnByTurn 8,
        rows := fun _ => roundRobin 2 4, rowLocals := fun _ _ => 0 } default A A 2 2 2
      { m := 1, k := 2, n := 1 } := by
    refine ⟨turnByTurn_finished _ _, turnByTurn_finished _ _, fun step below C => ?_⟩
    exact addRowThreads_finished 2 2 2 _ _ C
  have int8 : Int8Finished (exact default) (fun _ _ => 0)
      { blockA := turnByTurn 8, blockB := turnByTurn 8, rows := roundRobin 2 2,
        rowLocals := fun _ => 0 } default A A (fun _ => 7) 2 2 2 := by
    refine ⟨turnByTurn_finished _ _, turnByTurn_finished _ _, ?_⟩
    exact assignRowThreads_finished 2 2 _ _ fun _ => 7
  exact (kernels_interleaved (fun _ _ => 0) _ _ default default A A (fun _ => 7) 2 2 2
    { m := 1, k := 2, n := 1 } tiled int8).1

end TwoByTwo

end Kernels

end NpuMatmul
