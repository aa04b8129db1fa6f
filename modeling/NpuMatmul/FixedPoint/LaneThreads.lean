import NpuMatmul.FixedPoint.Branches
import NpuMatmul.FixedPoint.Encoding
import NpuMatmul.Shared.Threads

set_option autoImplicit false

namespace NpuMatmul

open LoopNest Loop Threads

-- The lanes as the rounds of an omp parallel for. Each has its own copy of what the loop body
-- declares; the arrays of the block are the memory of all of them. The floats are only read.
inductive BlockCell where
  | mantissa (index : Nat)
  | exponents (index : Nat)
  | means (index : Nat)
  | stdDevs (index : Nat)
  | precisions (index : Nat)
deriving DecidableEq, Repr

abbrev BlockCell.Value (width : Nat) (F : Type) : BlockCell → Type
  | .mantissa _ => BitVec width
  | .exponents _ => Int
  | .means _ | .stdDevs _ => F
  | .precisions _ => Nat

section Memory

variable {width : Nat} {F : Type}

def BlockArrays.memory (arrays : BlockArrays width F) :
    (cell : BlockCell) → cell.Value width F
  | .mantissa index => arrays.mantissa index
  | .exponents index => arrays.exponents index
  | .means index => arrays.means index
  | .stdDevs index => arrays.stdDevs index
  | .precisions index => arrays.precisions index

def BlockArrays.ofMemory (memory : (cell : BlockCell) → cell.Value width F) :
    BlockArrays width F :=
  { mantissa := fun index => memory (.mantissa index)
    exponents := fun index => memory (.exponents index)
    means := fun index => memory (.means index)
    stdDevs := fun index => memory (.stdDevs index)
    precisions := fun index => memory (.precisions index) }

@[simp] theorem BlockArrays.ofMemory_memory (arrays : BlockArrays width F) :
    BlockArrays.ofMemory arrays.memory = arrays := rfl

def BlockArrays.set (arrays : BlockArrays width F) :
    (cell : BlockCell) → cell.Value width F → BlockArrays width F
  | .mantissa index, value =>
      { arrays with mantissa := Function.update arrays.mantissa index value }
  | .exponents index, value =>
      { arrays with exponents := Function.update arrays.exponents index value }
  | .means index, value => { arrays with means := Function.update arrays.means index value }
  | .stdDevs index, value => { arrays with stdDevs := Function.update arrays.stdDevs index value }
  | .precisions index, value =>
      { arrays with precisions := Function.update arrays.precisions index value }

theorem memory_set (arrays : BlockArrays width F) (cell : BlockCell) (value : cell.Value width F) :
    Function.update arrays.memory cell value = (arrays.set cell value).memory := by
  funext other
  by_cases same : other = cell
  · subst same
    rw [Function.update_self]
    cases other <;> simp [BlockArrays.memory, BlockArrays.set]
  · rw [Function.update_of_ne same]
    cases cell <;> cases other <;> simp_all [BlockArrays.memory, BlockArrays.set]

end Memory

section Code

variable {F : Type} (fp : FloatArith F) {width : Nat}

abbrev LaneCode (σ : Type) (width : Nat) (F : Type) : Type :=
  List (Instruction σ (BlockCell.Value width F))

structure FitLocals (F : Type) where
  stats : BlockStats F
  mean : F
  meanAgain : F

-- The variance is taken with the mean as it stands in the array.
def FitLocals.stdDev (locals : FitLocals F) : F :=
  if 0 < locals.stats.blockN then
    let variance := fp.sub (fp.div locals.stats.blockSumSquares (fp.ofInt locals.stats.blockN))
      (fp.mul locals.mean locals.meanAgain)
    fp.sqrt (fp.max (zeroFloat fp) variance)
  else zeroFloat fp

def fitBlockCode (shape : BlockShape) (values : Nat → F) (lane block : Nat) :
    LaneCode (FitLocals F) width F :=
  let blockFlatIdx := shape.blockFlatIdx lane block
  [.compute fun locals => { locals with stats := .empty fp }] ++
    loop (shape.count block) (fun offset => [.compute fun locals =>
      { locals with stats := locals.stats.scan fp (values (shape.element lane block offset)) }]) ++
    [.store (.exponents blockFlatIdx) fun locals => locals.stats.exponent,
      .store (.means blockFlatIdx) fun locals => locals.stats.mean fp] ++
    (if 0 < shape.count block then
      [.load (.means blockFlatIdx) fun mean locals => { locals with mean := mean },
        .load (.means blockFlatIdx) fun mean locals => { locals with meanAgain := mean }]
    else []) ++
    [.store (.stdDevs blockFlatIdx) fun locals => locals.stdDev fp]

def fitCode (shape : BlockShape) (values : Nat → F) (lane : Nat) : LaneCode (FitLocals F) width F :=
  if lane < shape.lanes then loop shape.numBlocks (fitBlockCode fp shape values lane) else []

structure EncodeLocals (width : Nat) (F : Type) where
  exponentVal : Int
  bitsOfPrecision : Nat
  temporaryBuffer : Nat → F
  columnMantissa : Nat → BitVec width
  integerMean : BitVec width
  centred : BitVec width

def EncodeLocals.rounded (locals : EncodeLocals width F) (count : Nat) : Nat → BitVec width :=
  stochasticRoundArray fp locals.temporaryBuffer locals.bitsOfPrecision locals.columnMantissa count

def exponentCode (shape : BlockShape) (arguments : EncodeArguments F) (lane block : Nat) :
    LaneCode (EncodeLocals width F) width F :=
  if arguments.fixedExponent ≠ 0 then
    [.compute fun locals => { locals with exponentVal := arguments.fixedExponent }]
  else
    [.load (.exponents (shape.blockFlatIdx lane block)) fun exponent locals =>
      { locals with exponentVal := exponent }]

def precisionCode (shape : BlockShape) (arguments : EncodeArguments F) (lane block : Nat) :
    LaneCode (EncodeLocals width F) width F :=
  (if 0 < arguments.forcePrecision then
    [.compute fun locals => { locals with bitsOfPrecision := arguments.forcePrecision }]
  else
    [.load (.stdDevs (shape.blockFlatIdx lane block)) fun stdDev locals =>
      { locals with
        bitsOfPrecision := fittingPrecision
          (doesNotFit fp arguments.other stdDev locals.exponentVal (shape.count block))
          (width - 1) }]) ++
    [.store (.precisions (shape.blockFlatIdx lane block)) fun locals => locals.bitsOfPrecision]

-- The row branch rounds into the mantissa, the column branch into an array of its own.
def roundCode (shape : BlockShape) (arguments : EncodeArguments F) (lane block : Nat) :
    LaneCode (EncodeLocals width F) width F :=
  let count := shape.count block
  let place := shape.element lane block
  loop count (fun i => [.compute fun locals =>
      { locals with
        temporaryBuffer := Function.update locals.temporaryBuffer i
          (fp.mul (arguments.floatsArray (place i)) (fastPow2 fp (-locals.exponentVal))) }]) ++
    (if shape.blockColumns then
      loop count fun i => [.store (.mantissa (place i)) fun locals => locals.rounded fp count i]
    else
      [.compute fun locals => { locals with columnMantissa := locals.rounded fp count }])

def centreCode (shape : BlockShape) (lane block : Nat) : LaneCode (EncodeLocals width F) width F :=
  let count := shape.count block
  let place := shape.element lane block
  [.load (.means (shape.blockFlatIdx lane block)) fun mean locals =>
      { locals with
        integerMean := integerMean fp width mean locals.exponentVal locals.bitsOfPrecision }] ++
    (if shape.blockColumns then
      loop count fun i =>
        [.load (.mantissa (place i)) fun entry locals => { locals with centred := entry },
          .store (.mantissa (place i)) fun locals => locals.centred - locals.integerMean]
    else
      loop count fun i =>
        [.store (.mantissa (place i)) fun locals => locals.columnMantissa i - locals.integerMean])

def encodeBlockCode (shape : BlockShape) (arguments : EncodeArguments F) (lane block : Nat) :
    LaneCode (EncodeLocals width F) width F :=
  exponentCode shape arguments lane block ++ precisionCode fp shape arguments lane block ++
    roundCode fp shape arguments lane block ++ centreCode fp shape lane block

def encodeCode (shape : BlockShape) (arguments : EncodeArguments F) (lane : Nat) :
    LaneCode (EncodeLocals width F) width F :=
  if lane < shape.lanes then loop shape.numBlocks (encodeBlockCode fp shape arguments lane) else []

end Code

section Fit

variable {F : Type} (fp : FloatArith F) {width : Nat} (shape : BlockShape) (lane block : Nat)

theorem execAll_computes {κ σ : Type} [DecidableEq κ] {ν : κ → Type} (n : Nat)
    (change : Nat → σ → σ) (machine : Machine σ ν) :
    execAll (loop n fun i => [.compute (change i)]) machine =
      { machine with own := forLoop n change machine.own } := by
  rw [execAll_loop]
  induction n with
  | zero => rfl
  | succ n ih =>
      rw [forLoop_succ, ih]
      rfl

theorem scan_blockN (n : Nat) (values : Nat → F) :
    (forLoop n (fun i (stats : BlockStats F) => stats.scan fp (values i)) (.empty fp)).blockN =
      n := by
  induction n with
  | zero => rfl
  | succ n ih => exact congrArg (· + 1) ih

theorem blockStats_blockN (values : Nat → F) :
    (blockStats fp shape values lane block).blockN = shape.count block :=
  scan_blockN fp _ _

theorem scans_locals (n : Nat) (values : Nat → F) (locals : FitLocals F) :
    forLoop n (fun i (locals : FitLocals F) =>
        { locals with stats := locals.stats.scan fp (values i) }) locals =
      { locals with
        stats := forLoop n (fun i (stats : BlockStats F) => stats.scan fp (values i))
          locals.stats } := by
  induction n with
  | zero => rfl
  | succ n ih => simp only [forLoop_succ, ih]

theorem fitBlock_simulated (values : Nat → F) (own : FitLocals F) (arrays : BlockArrays width F) :
    (execAll (fitBlockCode fp shape values lane block)
        { own := own, memory := arrays.memory }).memory =
      (fitBlock fp shape values lane block arrays).memory := by
  have size := blockStats_blockN fp shape lane block values
  have scanned : forLoop (shape.count block)
      (fun i (stats : BlockStats F) => stats.scan fp (values (shape.element lane block i)))
      (.empty fp) = blockStats fp shape values lane block := rfl
  simp only [fitBlockCode, execAll_append, execAll_cons, execAll_nil, execAll_computes,
    Instruction.exec, scans_locals, memory_set, scanned]
  by_cases filled : 0 < shape.count block
  · simp only [if_pos filled, execAll_cons, execAll_nil, Instruction.exec, memory_set,
      FitLocals.stdDev, size]
    simp only [BlockArrays.memory, BlockArrays.set, Function.update_self, fitBlock,
      BlockStats.stdDev, BlockStats.mean, size, if_pos filled]
  · simp only [if_neg filled, execAll_nil, memory_set, FitLocals.stdDev, size, BlockArrays.set,
      fitBlock, BlockStats.stdDev]

end Fit

section Encode

variable {F : Type} (fp : FloatArith F) {width : Nat} {shape : BlockShape} {lane block : Nat}
  (arguments : EncodeArguments F) (own : EncodeLocals width F) (arrays : BlockArrays width F)

theorem exponentCode_exec :
    execAll (exponentCode shape arguments lane block) { own := own, memory := arrays.memory } =
      { own :=
          { own with
            exponentVal :=
              encodeExponent arguments (arrays.exponents (shape.blockFlatIdx lane block)) }
        memory := arrays.memory } := by
  unfold exponentCode encodeExponent
  split <;> rfl

theorem precisionCode_exec :
    execAll (precisionCode fp shape arguments lane block)
        { own := own, memory := arrays.memory } =
      let bits := encodePrecision fp arguments width
        (arrays.stdDevs (shape.blockFlatIdx lane block)) own.exponentVal (shape.count block)
      { own := { own with bitsOfPrecision := bits }
        memory := (arrays.set (.precisions (shape.blockFlatIdx lane block)) bits).memory } := by
  unfold precisionCode encodePrecision
  split <;>
    simp only [execAll_append, execAll_cons, execAll_nil, Instruction.exec, memory_set,
      BlockArrays.memory]

def EncodeLocals.scaled (shape : BlockShape) (lane block : Nat) (arguments : EncodeArguments F)
    (locals : EncodeLocals width F) : EncodeLocals width F :=
  { locals with
    temporaryBuffer := store (shape.count block) id
      (scaledElement fp shape arguments.floatsArray locals.exponentVal lane block)
      locals.temporaryBuffer }

theorem scales_locals :
    forLoop (shape.count block) (fun i (locals : EncodeLocals width F) =>
        { locals with
          temporaryBuffer := Function.update locals.temporaryBuffer i
            (fp.mul (arguments.floatsArray (shape.element lane block i))
              (fastPow2 fp (-locals.exponentVal))) }) own =
      own.scaled fp shape lane block arguments := by
  unfold EncodeLocals.scaled
  induction shape.count block with
  | zero => rfl
  | succ n ih =>
      rw [forLoop_succ, ih]
      rfl

theorem stores_mantissa {σ : Type} (n : Nat) (place : Nat → Nat) (value : Nat → σ → BitVec width)
    (own : σ) :
    execAll (loop n fun i => [.store (.mantissa (place i)) (value i)])
        { own := own, memory := arrays.memory } =
      { own := own
        memory :=
          { arrays with mantissa := store n place (value · own) arrays.mantissa }.memory } := by
  rw [execAll_loop]
  induction n with
  | zero => rfl
  | succ n ih =>
      rw [forLoop_succ, ih]
      simp only [execAll_cons, execAll_nil, Instruction.exec, memory_set]
      rfl

theorem rounded_correct (locals : EncodeLocals width F) {count offset : Nat}
    (within : offset < count) {buffer : Nat → F}
    (scaled : ∀ i < count, locals.temporaryBuffer i = buffer i) :
    locals.rounded fp count offset =
      roundElement fp buffer locals.bitsOfPrecision offset (elementNoise count offset) := by
  rw [EncodeLocals.rounded, stochasticRoundArray_correct fp _ _ _ _ _ within]
  exact roundElement_congr fp (scaled offset within) _ _

theorem roundCode_rows (rowsFirst : shape.blockColumns = true) :
    execAll (roundCode fp shape arguments lane block) { own := own, memory := arrays.memory } =
      let scaled := own.scaled fp shape lane block arguments
      { own := scaled
        memory :=
          { arrays with
            mantissa := store (shape.count block) (shape.element lane block)
              (scaled.rounded fp (shape.count block)) arrays.mantissa }.memory } := by
  simp only [roundCode, if_pos rowsFirst, execAll_append, execAll_computes, scales_locals,
    stores_mantissa]

theorem roundCode_columns (columns : shape.blockColumns = false) :
    execAll (roundCode fp shape arguments lane block) { own := own, memory := arrays.memory } =
      let scaled := own.scaled fp shape lane block arguments
      { own := { scaled with columnMantissa := scaled.rounded fp (shape.count block) }
        memory := arrays.memory } := by
  have other : ¬ shape.blockColumns = true := by simp [columns]
  simp only [roundCode, if_neg other, execAll_append, execAll_computes, scales_locals]
  rfl

theorem centres_mantissa (n : Nat) (place : Nat → Nat) :
    ∃ centred : BitVec width,
      execAll (loop n fun i =>
          [.load (.mantissa (place i)) fun entry (locals : EncodeLocals width F) =>
              { locals with centred := entry },
            .store (.mantissa (place i)) fun locals => locals.centred - locals.integerMean])
          { own := own, memory := arrays.memory } =
        { own := { own with centred := centred }
          memory :=
            { arrays with
              mantissa := forLoop n (fun i mantissa =>
                  Function.update mantissa (place i) (mantissa (place i) - own.integerMean))
                arrays.mantissa }.memory } := by
  rw [execAll_loop]
  induction n with
  | zero => exact ⟨own.centred, rfl⟩
  | succ n ih =>
      obtain ⟨centred, earlier⟩ := ih
      rw [forLoop_succ, earlier]
      simp only [execAll_cons, execAll_nil, Instruction.exec, memory_set]
      exact ⟨_, rfl⟩

theorem centreCode_rows (rowsFirst : shape.blockColumns = true) :
    (execAll (centreCode fp shape lane block) { own := own, memory := arrays.memory }).memory =
      { arrays with
        mantissa := forLoop (shape.count block) (fun i mantissa =>
            Function.update mantissa (shape.element lane block i)
              (mantissa (shape.element lane block i) -
                integerMean fp width (arrays.means (shape.blockFlatIdx lane block))
                  own.exponentVal own.bitsOfPrecision))
          arrays.mantissa }.memory := by
  obtain ⟨centred, ran⟩ := centres_mantissa
    { own with
      integerMean := integerMean fp width (arrays.means (shape.blockFlatIdx lane block))
        own.exponentVal own.bitsOfPrecision } arrays (shape.count block) (shape.element lane block)
  simp only [centreCode, if_pos rowsFirst, List.singleton_append, execAll_cons, Instruction.exec]
  exact congrArg Machine.memory ran

theorem centreCode_columns (columns : shape.blockColumns = false) :
    (execAll (centreCode fp shape lane block) { own := own, memory := arrays.memory }).memory =
      { arrays with
        mantissa := store (shape.count block) (shape.element lane block)
          (fun i => own.columnMantissa i -
            integerMean fp width (arrays.means (shape.blockFlatIdx lane block))
              own.exponentVal own.bitsOfPrecision)
          arrays.mantissa }.memory := by
  have other : ¬ shape.blockColumns = true := by simp [columns]
  simp only [centreCode, if_neg other, List.singleton_append, execAll_cons, Instruction.exec,
    stores_mantissa]
  rfl

def EncodeLocals.ready (shape : BlockShape) (lane block : Nat) (arguments : EncodeArguments F)
    (arrays : BlockArrays width F) (locals : EncodeLocals width F) : EncodeLocals width F :=
  let exponentVal := encodeExponent arguments (arrays.exponents (shape.blockFlatIdx lane block))
  { locals with
    exponentVal := exponentVal
    bitsOfPrecision := encodePrecision fp arguments width
      (arrays.stdDevs (shape.blockFlatIdx lane block)) exponentVal (shape.count block) }

variable (shape lane block) in
theorem encodeBlock_entries :
    let ready := own.ready fp shape lane block arguments arrays
    store (shape.count block) (shape.element lane block)
        (fun i => (ready.scaled fp shape lane block arguments).rounded fp (shape.count block) i -
          integerMean fp width (arrays.means (shape.blockFlatIdx lane block)) ready.exponentVal
            ready.bitsOfPrecision) arrays.mantissa =
      (encodeBlock fp shape arguments lane block arrays).mantissa := by
  intro ready
  apply store_congr
  · intro i _
    rfl
  · intro i within
    have filled : ∀ i < shape.count block,
        (ready.scaled fp shape lane block arguments).temporaryBuffer i =
          scaledElement fp shape arguments.floatsArray ready.exponentVal lane block i := by
      apply store_written
      intro i j _ earlier
      exact Nat.ne_of_lt earlier
    rw [rounded_correct fp _ within filled, stochasticRoundArray_correct fp _ _ _ _ _ within]
    rfl

theorem encodeBlock_simulated (below : lane < shape.lanes) :
    (execAll (encodeBlockCode fp shape arguments lane block)
        { own := own, memory := arrays.memory }).memory =
      (encodeBlock fp shape arguments lane block arrays).memory := by
  have entries := congrArg (fun mantissa =>
    ({ encodeBlock fp shape arguments lane block arrays with mantissa := mantissa } :
      BlockArrays width F).memory) (encodeBlock_entries fp shape lane block arguments own arrays)
  simp only [encodeBlockCode, execAll_append, exponentCode_exec, precisionCode_exec]
  cases orientation : shape.blockColumns with
  | true =>
      have apart := @BlockShape.element_apart shape lane block below
      rw [roundCode_rows fp arguments _ _ orientation]
      simp only [centreCode_rows fp _ _ orientation]
      refine Eq.trans ?_ entries
      exact congrArg (fun mantissa =>
        ({ encodeBlock fp shape arguments lane block arrays with mantissa := mantissa } :
          BlockArrays width F).memory) (forLoop_stored (· - _) arrays.mantissa apart)
  | false =>
      rw [roundCode_columns fp arguments _ _ orientation]
      simp only [centreCode_columns fp _ _ orientation]
      exact entries

end Encode

section Footprints

variable {σ : Type} {F : Type} {width : Nat} {shape : BlockShape} {lane other block : Nat}

def BlockCell.Of (shape : BlockShape) (lane : Nat) : BlockCell → Prop
  | .mantissa index => ∃ block < shape.numBlocks, ∃ offset < shape.count block,
      index = shape.element lane block offset
  | .exponents index | .means index | .stdDevs index | .precisions index =>
      ∃ block < shape.numBlocks, index = shape.blockFlatIdx lane block

theorem cells_apart {cell : BlockCell} (below : lane < shape.lanes) (below' : other < shape.lanes)
    (here : cell.Of shape lane) (there : cell.Of shape other) : lane = other := by
  cases cell with
  | mantissa index =>
      obtain ⟨block, inside, offset, within, rfl⟩ := here
      obtain ⟨block', inside', offset', within', same⟩ := there
      exact (BlockShape.element_injective below below' within within' same).1
  | exponents index | means index | stdDevs index | precisions index =>
      obtain ⟨block, inside, rfl⟩ := here
      obtain ⟨block', inside', same⟩ := there
      exact (BlockShape.blockFlatIdx_injective below below' inside inside' same).1

variable (fp : FloatArith F)

theorem fitBlockCode_within (values : Nat → F) (inside : block < shape.numBlocks) :
    Within (BlockCell.Of shape lane)
      (fitBlockCode fp shape values lane block : LaneCode _ width F) := by
  have entry : ∃ own < shape.numBlocks,
      shape.blockFlatIdx lane block = shape.blockFlatIdx lane own := ⟨block, inside, rfl⟩
  have scans : Within (BlockCell.Of shape lane) (loop (shape.count block) fun offset =>
      [Instruction.compute fun locals : FitLocals F =>
        { locals with
          stats := locals.stats.scan fp (values (shape.element lane block offset)) }] :
      LaneCode _ width F) := by
    apply within_loop
    simp [Instruction.touched]
  unfold fitBlockCode
  split <;> simp [Instruction.touched, BlockCell.Of, entry, scans]

theorem element_of {offset : Nat} (inside : block < shape.numBlocks)
    (within : offset < shape.count block) :
    (BlockCell.mantissa (shape.element lane block offset)).Of shape lane :=
  ⟨block, inside, offset, within, rfl⟩

theorem roundCode_within (arguments : EncodeArguments F) (inside : block < shape.numBlocks) :
    Within (BlockCell.Of shape lane)
      (roundCode fp shape arguments lane block : LaneCode _ width F) := by
  unfold roundCode
  refine within_append.mpr ⟨within_loop (by simp [Instruction.touched]), ?_⟩
  split
  · apply within_loop
    intro offset within
    simpa [Instruction.touched] using element_of inside within
  · simp [Instruction.touched]

theorem centreCode_within (inside : block < shape.numBlocks) :
    Within (BlockCell.Of shape lane) (centreCode fp shape lane block : LaneCode _ width F) := by
  unfold centreCode
  refine within_append.mpr ⟨?_, ?_⟩
  · simp only [within_cons, within_nil, and_true, Instruction.touched, Option.some.injEq,
      forall_eq']
    exact ⟨block, inside, rfl⟩
  · split <;>
    · apply within_loop
      intro offset within
      simpa [Instruction.touched] using element_of inside within

theorem encodeBlockCode_within (arguments : EncodeArguments F) (inside : block < shape.numBlocks) :
    Within (BlockCell.Of shape lane)
      (encodeBlockCode fp shape arguments lane block : LaneCode _ width F) := by
  have entry : ∃ own < shape.numBlocks,
      shape.blockFlatIdx lane block = shape.blockFlatIdx lane own := ⟨block, inside, rfl⟩
  have exponent : Within (BlockCell.Of shape lane)
      (exponentCode shape arguments lane block : LaneCode (EncodeLocals width F) width F) := by
    unfold exponentCode
    split <;> simp [Instruction.touched, BlockCell.Of, entry]
  have precision : Within (BlockCell.Of shape lane)
      (precisionCode fp shape arguments lane block : LaneCode _ width F) := by
    unfold precisionCode
    split <;> simp [Instruction.touched, BlockCell.Of, entry]
  simp [encodeBlockCode, exponent, precision, roundCode_within fp arguments inside,
    centreCode_within fp inside]

theorem fitCode_idle (shape : BlockShape) (values : Nat → F) :
    ∀ lane, shape.lanes ≤ lane →
      (fitCode fp shape values lane : LaneCode (FitLocals F) width F) = [] :=
  fun _ out => if_neg (not_lt.mpr out)

theorem encodeCode_idle (shape : BlockShape) (arguments : EncodeArguments F) :
    ∀ lane, shape.lanes ≤ lane →
      (encodeCode fp shape arguments lane : LaneCode (EncodeLocals width F) width F) = [] :=
  fun _ out => if_neg (not_lt.mpr out)

theorem fitCode_raceFree (shape : BlockShape) (values : Nat → F) :
    RaceFree (fitCode fp shape values : Nat → LaneCode (FitLocals F) width F) := by
  apply raceFree_owned (fun lane cell => cell.Of shape lane) (fitCode_idle fp shape values)
  · intro lane below
    rw [fitCode, if_pos below]
    exact within_loop fun block inside => fitBlockCode_within fp values inside
  · exact fun lane below other below' cell => cells_apart below below'

theorem encodeCode_raceFree (shape : BlockShape) (arguments : EncodeArguments F) :
    RaceFree (encodeCode fp shape arguments : Nat → LaneCode (EncodeLocals width F) width F) := by
  apply raceFree_owned (fun lane cell => cell.Of shape lane) (encodeCode_idle fp shape arguments)
  · intro lane below
    rw [encodeCode, if_pos below]
    exact within_loop fun block inside => encodeBlockCode_within fp arguments inside
  · exact fun lane below other below' cell => cells_apart below below'

end Footprints

section Interleaved

variable {F : Type} (fp : FloatArith F) {width : Nat} (block : FixedPointBlock width F)

def FixedPointBlock.fitThreads (values : Nat → F) (own : Nat → FitLocals F)
    (schedule : List Nat) : Running Nat (FitLocals F) (BlockCell.Value width F) :=
  (begun (fitCode fp block.toBlockShape values) own block.toBlockArrays.memory).play schedule

def FixedPointBlock.encodeThreads (arguments : EncodeArguments F)
    (own : Nat → EncodeLocals width F) (schedule : List Nat) :
    Running Nat (EncodeLocals width F) (BlockCell.Value width F) :=
  (begun (encodeCode fp block.toBlockShape arguments) own block.toBlockArrays.memory).play schedule

theorem fitThreads_memory (values : Nat → F) (own : Nat → FitLocals F) (schedule : List Nat)
    (finished : (block.fitThreads fp values own schedule).Finished) :
    (block.fitThreads fp values own schedule).memory =
      (block.fitExponent fp values).toBlockArrays.memory := by
  apply parallelFor_memory BlockArrays.memory (fitCode_raceFree fp block.toBlockShape values)
    (fitCode_idle fp block.toBlockShape values) _ finished
  intro lane below own arrays
  rw [fitCode, if_pos below]
  apply loop_simulated BlockArrays.memory
  intro index _ own arrays
  exact fitBlock_simulated fp block.toBlockShape lane index values own arrays

theorem encodeThreads_memory (arguments : EncodeArguments F) (own : Nat → EncodeLocals width F)
    (schedule : List Nat)
    (finished : (block.encodeThreads fp arguments own schedule).Finished) :
    (block.encodeThreads fp arguments own schedule).memory =
      (block.floatsToMantissa fp arguments).toBlockArrays.memory := by
  apply parallelFor_memory BlockArrays.memory (encodeCode_raceFree fp block.toBlockShape arguments)
    (encodeCode_idle fp block.toBlockShape arguments) _ finished
  intro lane below own arrays
  rw [encodeCode, if_pos below]
  apply loop_simulated BlockArrays.memory
  intro index _ own arrays
  exact encodeBlock_simulated fp arguments own arrays below

end Interleaved

section Decode

abbrev FillCode (F : Type) : Type := List (Instruction F fun _ : Nat => F)

variable {F : Type}

def decodeCode (shape : BlockShape) (value : Nat → Nat → F) (lane : Nat) : FillCode F :=
  if lane < shape.lanes then
    loop shape.numBlocks fun block => loop (shape.count block) fun offset =>
      [.store (shape.element lane block offset) fun _ =>
        value (shape.blockFlatIdx lane block) (shape.element lane block offset)]
  else []

def fillThreads (code : Nat → FillCode F) (own : Nat → F) (schedule : List Nat)
    (array : Nat → F) : Running Nat F fun _ : Nat => F :=
  (begun code own array).play schedule

variable {schedule : List Nat} {own : Nat → F} {array : Nat → F}

theorem decodeCode_idle (shape : BlockShape) (value : Nat → Nat → F) :
    ∀ lane, shape.lanes ≤ lane → decodeCode shape value lane = [] :=
  fun _ out => if_neg (not_lt.mpr out)

theorem decodeCode_raceFree (shape : BlockShape) (value : Nat → Nat → F) :
    RaceFree (decodeCode shape value) := by
  apply raceFree_owned (fun lane cell => ∃ block, ∃ offset < shape.count block,
    cell = shape.element lane block offset) (decodeCode_idle shape value)
  · intro lane below
    rw [decodeCode, if_pos below]
    apply within_loop
    intro block inside
    apply within_loop
    intro offset within
    simpa [Instruction.touched] using ⟨block, offset, within, rfl⟩
  · rintro lane below other below' cell ⟨block, offset, within, rfl⟩
      ⟨block', offset', within', same⟩
    exact (BlockShape.element_injective below below' within within' same).1

theorem decodeThreads_memory (shape : BlockShape) (value : Nat → Nat → F)
    (finished : (fillThreads (decodeCode shape value) own schedule array).Finished) :
    (fillThreads (decodeCode shape value) own schedule array).memory =
      grid shape.lanes shape.numBlocks
        (fun lane block => store (shape.count block) (shape.element lane block)
          fun offset => value (shape.blockFlatIdx lane block) (shape.element lane block offset))
        array := by
  apply parallelFor_memory id (decodeCode_raceFree shape value) (decodeCode_idle shape value) _
    finished
  intro lane below own array
  rw [decodeCode, if_pos below]
  apply loop_simulated id
  intro block inside own array
  apply loop_simulated id
  intro offset within own array
  rfl

end Decode

section Methods

variable {F : Type} (fp : FloatArith F) {width : Nat} (block : FixedPointBlock width F)

def FixedPointBlock.floatAt (blockFlatIdx index : Nat) : F :=
  let exponentScale := fastPow2 fp (block.exponents blockFlatIdx - block.precisions blockFlatIdx)
  fp.add (fp.mul (fp.ofInt (block.mantissa index).toInt) exponentScale) (block.means blockFlatIdx)

def FixedPointBlock.productAt (otherExponent : Int) (blockFlatIdx index : Nat) : F :=
  let exponentScale := fastPow2 fp
    (block.exponents blockFlatIdx - block.precisions blockFlatIdx - otherExponent)
  let meanPart := fp.mul (block.means blockFlatIdx) (fastPow2 fp (-otherExponent))
  fp.add (fp.mul (fp.ofInt (block.mantissa index).toInt) exponentScale) meanPart

structure MethodSchedules where
  fit : List Nat
  encode : List Nat
  decode : List Nat
  decodeProduct : List Nat

structure MethodLocals (width : Nat) (F : Type) where
  fit : Nat → FitLocals F
  encode : Nat → EncodeLocals width F
  decode : Nat → F

variable (schedules : MethodSchedules) (locals : MethodLocals width F) (values : Nat → F)
  (arguments : EncodeArguments F) (otherExponent : Int) (outputArray : Nat → F)

def FixedPointBlock.decodeThreads (value : Nat → Nat → F) (own : Nat → F) (schedule : List Nat) :
    Running Nat F fun _ : Nat => F :=
  fillThreads (decodeCode block.toBlockShape value) own schedule outputArray

structure MethodsFinished : Prop where
  fit : (block.fitThreads fp values locals.fit schedules.fit).Finished
  encode : (block.encodeThreads fp arguments locals.encode schedules.encode).Finished
  decode : (block.decodeThreads outputArray (block.floatAt fp) locals.decode
    schedules.decode).Finished
  decodeProduct : (block.decodeThreads outputArray (block.productAt fp otherExponent) locals.decode
    schedules.decodeProduct).Finished

structure MethodsRaceFree : Prop where
  fit : RaceFree (fitCode fp block.toBlockShape values : Nat → LaneCode (FitLocals F) width F)
  encode : RaceFree
    (encodeCode fp block.toBlockShape arguments : Nat → LaneCode (EncodeLocals width F) width F)
  decode : RaceFree (decodeCode block.toBlockShape (block.floatAt fp))
  decodeProduct : RaceFree (decodeCode block.toBlockShape (block.productAt fp otherExponent))

theorem methods_raceFree : MethodsRaceFree fp block values arguments otherExponent where
  fit := fitCode_raceFree fp block.toBlockShape values
  encode := encodeCode_raceFree fp block.toBlockShape arguments
  decode := decodeCode_raceFree block.toBlockShape _
  decodeProduct := decodeCode_raceFree block.toBlockShape _

-- The parallel loops of a FixedPointBlock leave what they leave on one thread, however the
-- accesses of their rounds are interleaved.
theorem methods_interleaved
    (finished : MethodsFinished fp block schedules locals values arguments otherExponent
      outputArray) :
    MethodsRaceFree fp block values arguments otherExponent ∧
      BlockArrays.ofMemory (block.fitThreads fp values locals.fit schedules.fit).memory =
        (Branches.fitExponent fp block values).toBlockArrays ∧
      (∀ fresh, BlockArrays.ofMemory
          (block.encodeThreads fp arguments locals.encode schedules.encode).memory =
        (Branches.floatsToMantissa fp block arguments fresh).toBlockArrays) ∧
      (block.decodeThreads outputArray (block.floatAt fp) locals.decode schedules.decode).memory =
        Branches.mantissaToFloats fp block outputArray ∧
      (block.decodeThreads outputArray (block.productAt fp otherExponent) locals.decode
          schedules.decodeProduct).memory =
        Branches.mantissaToFloatsProduct fp block outputArray otherExponent := by
  refine ⟨methods_raceFree fp block values arguments otherExponent, ?_, fun fresh => ?_, ?_, ?_⟩
  · rw [Branches.fitExponent_unified, fitThreads_memory fp block values _ _ finished.fit,
      BlockArrays.ofMemory_memory]
  · rw [Branches.floatsToMantissa_unified,
      encodeThreads_memory fp block arguments _ _ finished.encode, BlockArrays.ofMemory_memory]
  · rw [Branches.mantissaToFloats_unified]
    exact decodeThreads_memory block.toBlockShape (block.floatAt fp) finished.decode
  · rw [Branches.mantissaToFloatsProduct_unified]
    exact decodeThreads_memory block.toBlockShape (block.productAt fp otherExponent)
      finished.decodeProduct

-- Two rows of three entries in blocks of two, the rows taking turns access by access.
theorem methods_interleaved_rows :
    let shape : BlockShape := { rows := 2, cols := 3, blockSize := 2, blockColumns := true }
    let block : FixedPointBlock 16 ℚ :=
      { toBlockShape := shape, toBlockArrays := default }
    let values : Nat → ℚ := fun i => i + 1
    BlockArrays.ofMemory
        (block.fitThreads (exact default) values (fun _ => ⟨.empty (exact default), 0, 0⟩)
          (roundRobin 2 40)).memory =
      (Branches.fitExponent (exact default) block values).toBlockArrays := by
  intro shape block values
  let arguments : EncodeArguments ℚ :=
    { floatsArray := values, fixedExponent := 0, forcePrecision := 8
      other := .default (exact default) }
  let locals : MethodLocals 16 ℚ :=
    { fit := fun _ => ⟨.empty (exact default), 0, 0⟩
      encode := fun _ => ⟨0, 0, fun _ => 0, fun _ => 0, 0, 0⟩
      decode := fun _ => 0 }
  let turns := roundRobin 2 40
  have finished : MethodsFinished (exact default) block ⟨turns, turns, turns, turns⟩ locals values
      arguments 0 fun _ => 0 := by
    constructor
    · exact roundRobin_finished (fitCode_idle (exact default) shape values) (by decide) _ _
    · exact roundRobin_finished (encodeCode_idle (exact default) shape arguments) (by decide) _ _
    · exact roundRobin_finished (decodeCode_idle shape _) (by decide) _ _
    · exact roundRobin_finished (decodeCode_idle shape _) (by decide) _ _
  exact (methods_interleaved (exact default) block ⟨turns, turns, turns, turns⟩ locals values
    arguments 0 (fun _ => 0) finished).2.1

end Methods

end NpuMatmul
