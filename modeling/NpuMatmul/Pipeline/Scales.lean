import NpuMatmul.Pipeline.Accuracy
import NpuMatmul.Pipeline.Narrowing
import NpuMatmul.Prefetch.Transparency

set_option autoImplicit false

namespace NpuMatmul

open Loop Binary32

section Code

variable {F : Type} (fp : FloatArith F) {width : Nat}

-- The arguments of fast_pow2 in floats_to_mantissa. Forcing the precision skips the search for one,
-- and the scales in it.
def FixedPointBlock.roundingScales (block : FixedPointBlock width F)
    (arguments : EncodeArguments F) : List Int :=
  (List.range block.lanes).flatMap fun lane =>
    (List.range block.numBlocks).flatMap fun index =>
      let blockFlatIdx := block.blockFlatIdx lane index
      let exponentVal := encodeExponent arguments (block.exponents blockFlatIdx)
      let bitsOfPrecision := encodePrecision fp arguments width (block.stdDevs blockFlatIdx)
        exponentVal (block.count index)
      [-exponentVal, -exponentVal + bitsOfPrecision]

def encodedScales (memory : BlockArrays width F) (shape : BlockShape) (values : Nat → F) :
    List Int :=
  ((FixedPointBlock.create memory shape.rows shape.cols shape.blockSize
    shape.blockColumns).fitExponent fp values).roundingScales fp
      { floatsArray := values, fixedExponent := 0, forcePrecision := 8, other := .default fp }

def cellScales {width' : Nat} (blockA : BlockArrays width F) (blockB : BlockArrays width' F)
    (rows columns : Nat) : List Int :=
  (List.range rows).flatMap fun r =>
    (List.range columns).map fun c =>
      let totalExp := blockA.exponents r + blockB.exponents c
      let totalPrec : Int := blockA.precisions r + blockB.precisions c
      totalExp - totalPrec

def tiledScales (memory : TiledMemory F) (A B : Nat → F) (M K N : Nat) (splits : Splits) :
    List Int :=
  encodedScales fp memory.blockA (rowShape M K) A ++
    encodedScales fp memory.blockB (rowShape N K) (transposed B N K fun _ => zeroFloat fp) ++
      (List.range splits.k).flatMap fun _ =>
        cellScales (tiledBlockA fp memory A M K).toBlockArrays
          (tiledBlockB fp memory B K N).toBlockArrays (M / splits.m) (N / splits.n)

def int8Scales (memory : Int8Memory F) (A B : Nat → F) (M K N : Nat) : List Int :=
  encodedScales fp memory.blockA (rowShape M K) A ++
    encodedScales fp memory.blockB (rowShape N K) (transposed B N K memory.sliceB) ++
      cellScales (int8BlockA fp memory A M K).toBlockArrays
        (int8BlockB fp memory B K N).toBlockArrays M N

def PrefetchState.usesPrefetched (s : PrefetchState F) (call : FallbackCall F) : Bool :=
  match s.prefetchQueue.pop.1 with
  | some popped => popped.block.rows = call.K ∧ popped.block.cols = call.N
  | none => false

def fallbackBlockA (s : PrefetchState F) (call : FallbackCall F) : FixedPointBlock 16 F :=
  encoded fp call.arraysA (rowShape call.M call.K) (fun i => s.memory (call.A + i)) 0 8

-- Without an interpreter the call returns, and backend 3 multiplies the floats.
def FallbackCall.quantises (call : FallbackCall F) : Bool :=
  call.interpreter && call.backendChoice != 3

def fallbackOutput (s : PrefetchState F) (call : FallbackCall F) : Option (Nat → Int) :=
  if call.quantises then
    call.invoke (copied (call.M * call.K) (fallbackBlockA fp s call).mantissa)
      (copied (call.K * call.N) (s.rightOperand fp call).mantissa)
  else none

-- matmul_int8 without a loaded engine. A prefetched block has been rounded before.
def fallbackScales (s : PrefetchState F) (call : FallbackCall F) : List Int :=
  if call.quantises then
    encodedScales fp call.arraysA (rowShape call.M call.K) (fun i => s.memory (call.A + i)) ++
      (if s.usesPrefetched call then []
        else encodedScales fp call.arraysB (columnShape call.K call.N)
          (fun i => s.memory (call.B + i))) ++
        match fallbackOutput fp s call with
        | none => []
        | some _ =>
            cellScales (fallbackBlockA fp s call).toBlockArrays
              (s.rightOperand fp call).toBlockArrays call.M call.N
  else []

theorem encodedScales_single (memory : BlockArrays width F) {shape : BlockShape}
    (values : Nat → F) (single : shape.numBlocks = 1) :
    encodedScales fp memory shape values = (List.range shape.lanes).flatMap fun lane =>
      [-(blockStats fp shape values lane 0).exponent,
        -(blockStats fp shape values lane 0).exponent + 8] := by
  apply List.flatMap_congr
  intro lane member
  have fitted := (fitExponent_correct fp (FixedPointBlock.create memory shape.rows shape.cols
    shape.blockSize shape.blockColumns) values lane (List.mem_range.mp member) 0 (by
      change 0 < shape.numBlocks
      omega)).1
  change (List.range shape.numBlocks).flatMap _ = _
  rw [single]
  simp only [List.range_one, List.flatMap_singleton, encodeExponent, encodePrecision, ne_eq,
    not_true, if_false]
  rw [if_pos (by decide : 0 < 8)]
  exact congrArg (fun e : Int => [-e, -e + ((8 : Nat) : Int)]) fitted

theorem forall_encodedScales (memory : BlockArrays width F) {shape : BlockShape}
    (values : Nat → F) (single : shape.numBlocks = 1) (P : Int → Prop) :
    (∀ s ∈ encodedScales fp memory shape values, P s) ↔
      ∀ lane < shape.lanes, P (-(blockStats fp shape values lane 0).exponent) ∧
        P (-(blockStats fp shape values lane 0).exponent + 8) := by
  rw [encodedScales_single fp memory values single, List.forall_mem_flatMap]
  simp

theorem forall_cellScales {width' : Nat} (blockA : BlockArrays width F)
    (blockB : BlockArrays width' F) (rows columns : Nat) (P : Int → Prop) :
    (∀ s ∈ cellScales blockA blockB rows columns, P s) ↔
      ∀ r < rows, ∀ c < columns, P (blockA.exponents r + blockB.exponents c -
        (blockA.precisions r + blockB.precisions c : Nat)) := by
  rw [cellScales, List.forall_mem_flatMap]
  simp

end Code

section Host

variable (casts : OpenCasts)

-- A scale that is a power of two, in the range of the normal floats.
structure Genuine (s : Int) : Prop where
  low : -126 ≤ s
  high : s ≤ 127
  finite : biased (word (fastPow2 (hostFloat casts) s)) ≠ 255
  power : value (word (fastPow2 (hostFloat casts) s)) = 2 ^ s

theorem genuine_iff {s : Int} : Genuine casts s ↔ -126 ≤ s ∧ s ≤ 127 := by
  constructor
  · intro genuine
    exact ⟨genuine.low, genuine.high⟩
  · intro range
    obtain ⟨low, high⟩ := range
    have bits : word (fastPow2 (hostFloat casts) s) = signedPower false s := by
      rw [fastPow2_host, power_inside (by omega) (by omega),
        word_signedPower false (by omega) (by omega)]
    have exponent : biased (signedPower false s) = (127 + s).toNat :=
      biased_signedPower false (by omega) (by omega)
    have whole : value (signedPower false s) = 2 ^ s := by
      rw [← power_inside (by omega) (by omega)]
      exact value_exponent low high
    refine ⟨low, high, ?_, ?_⟩
    · rw [bits, exponent]
      omega
    · rw [bits, whole]

def FiniteZero (x : Float32.Model) : Prop := biased (word x) ≠ 255 ∧ value (word x) = 0

def ZeroFloats (K : Nat) (line : Nat → FiniteFloat) : Prop := ZeroLine K fun k => (line k).toRat

theorem zeroFloats_exponent {K : Nat} {line : Nat → FiniteFloat} (zero : ZeroFloats K line) :
    hostExponent K line = -127 := by
  have none : ¬ 0 < maxField K fun k => (line k).bits := by
    intro positive
    obtain ⟨k, below, attained⟩ := maxField_attained positive
    have lower := (@magnitude_bounds (line k).bits (by omega)).1
    have scale := pow_pos' ((biased (line k).bits : Int) - 127)
    have value : Binary32.value (line k).bits = 0 := zero k below
    rw [← abs_value, value, abs_zero] at lower
    linarith
  exact if_neg none

section Lines

variable (K : Nat) (lines : Nat → Nat → FiniteFloat) (count : Nat)

def ExponentsInRange : Prop :=
  ∀ i < count, -119 ≤ hostExponent K (lines i) ∧ hostExponent K (lines i) ≤ 126

variable {K lines count}

theorem roundingScales_genuine {width : Nat} {shape : BlockShape}
    (memory : BlockArrays width Float32.Model) {values : Nat → Float32.Model}
    (single : shape.numBlocks = 1) (lanes : shape.lanes = count)
    (exponents : ∀ i < count,
      (blockStats (hostFloat casts) shape values i 0).exponent = hostExponent K (lines i)) :
    (∀ s ∈ encodedScales (hostFloat casts) memory shape values, Genuine casts s) ↔
      ExponentsInRange K lines count := by
  rw [forall_encodedScales (hostFloat casts) memory values single, lanes]
  constructor
  · intro genuine i below
    obtain ⟨rounding, mean⟩ := genuine i below
    rw [exponents i below] at rounding mean
    have first := (genuine_iff casts).mp rounding
    have second := (genuine_iff casts).mp mean
    omega
  · intro range i below
    have here := range i below
    rw [exponents i below, genuine_iff, genuine_iff]
    omega

end Lines

section Shapes

variable {M K N : Nat} (A B : Nat → FiniteFloat)

theorem rowScales_genuine {width : Nat} (arrays : BlockArrays width Float32.Model)
    (positive : 0 < K) :
    (∀ s ∈ encodedScales (hostFloat casts) arrays (rowShape M K) (hostFloats A),
        Genuine casts s) ↔ ExponentsInRange K (rowLine A K) M := by
  apply roundingScales_genuine casts arrays (rowShape_numBlocks positive) rfl
  intro r _
  rw [blockStats_row M]
  exact (rowStats_line (rowLine A K r) casts fun _ _ => rfl).1

theorem transposedScales_genuine {width : Nat} (arrays : BlockArrays width Float32.Model)
    (buffer : Nat → Float32.Model) (positive : 0 < K) :
    (∀ s ∈ encodedScales (hostFloat casts) arrays (rowShape N K)
        (transposed (hostFloats B) N K buffer), Genuine casts s) ↔
      ExponentsInRange K (columnLine B N) N := by
  apply roundingScales_genuine casts arrays (rowShape_numBlocks positive) rfl
  intro c below
  rw [blockStats_row N]
  exact (rowStats_line (columnLine B N c) casts
    fun _ within => transposed_apply (hostFloats B) buffer below within).1

theorem columnScales_genuine (arrays : BlockArrays 16 Float32.Model) (positive : 0 < K) :
    (∀ s ∈ encodedScales (hostFloat casts) arrays (columnShape K N) (hostFloats B),
        Genuine casts s) ↔ ExponentsInRange K (columnLine B N) N := by
  apply roundingScales_genuine casts arrays (columnShape_numBlocks positive) rfl
  intro c _
  rw [blockStats_fieldExponent, columnShape_count, hostExponent]
  simp [hostFloats, columnLine]

def SumsInRange (exponentA exponentB : Nat → Int) (rows columns : Nat) : Prop :=
  ∀ r < rows, ∀ c < columns,
    -110 ≤ exponentA r + exponentB c ∧ exponentA r + exponentB c ≤ 143

def exponentsA (K : Nat) (A : Nat → FiniteFloat) (r : Nat) : Int := hostExponent K (rowLine A K r)

def exponentsB (K N : Nat) (B : Nat → FiniteFloat) (c : Nat) : Int :=
  hostExponent K (columnLine B N c)

theorem cellScales_genuine {width width' : Nat} {blockA : BlockArrays width Float32.Model}
    {blockB : BlockArrays width' Float32.Model} {exponentA exponentB : Nat → Int}
    {rows columns : Nat}
    (left : ∀ r < rows, blockA.exponents r = exponentA r ∧ blockA.precisions r = 8)
    (right : ∀ c < columns, blockB.exponents c - blockB.precisions c = exponentB c - 8) :
    (∀ s ∈ cellScales blockA blockB rows columns, Genuine casts s) ↔
      SumsInRange exponentA exponentB rows columns := by
  have total (r : Nat) (below : r < rows) (c : Nat) (inside : c < columns) :
      blockA.exponents r + blockB.exponents c - (blockA.precisions r + blockB.precisions c : Nat) =
        exponentA r + exponentB c - 16 := by
    obtain ⟨exponent, precision⟩ := left r below
    have here := right c inside
    rw [exponent, precision]
    push_cast
    linarith
  rw [forall_cellScales]
  constructor
  · intro genuine r below c inside
    have here := genuine r below c inside
    rw [total r below c inside, genuine_iff] at here
    omega
  · intro range r below c inside
    have here := range r below c inside
    rw [total r below c inside, genuine_iff]
    omega

theorem stored_exponents {width : Nat} {arrays : BlockArrays width Float32.Model}
    {values : Nat → Float32.Model} {r : Nat} (line : Nat → FiniteFloat)
    (stored : EncodedRow (hostFloat casts) arrays values K r)
    (same : ∀ k < K, values (r * K + k) = (line k).host) :
    arrays.exponents r = hostExponent K line ∧ arrays.precisions r = 8 :=
  ⟨stored.exponent.trans (rowStats_line line casts same).1, stored.precision⟩

theorem row_stored {width : Nat} (arrays : BlockArrays width Float32.Model) (positive : 0 < K)
    {r : Nat} (below : r < M) :
    (encoded (hostFloat casts) arrays (rowShape M K) (hostFloats A) 0 8).exponents r =
        exponentsA K A r ∧
      (encoded (hostFloat casts) arrays (rowShape M K) (hostFloats A) 0 8).precisions r = 8 :=
  stored_exponents casts (rowLine A K r)
    (encoded_row (hostFloat casts) arrays (hostFloats A) below positive) fun _ _ => rfl

theorem column_stored {width : Nat} (arrays : BlockArrays width Float32.Model)
    (buffer : Nat → Float32.Model) (positive : 0 < K) {c : Nat} (below : c < N) :
    (encoded (hostFloat casts) arrays (rowShape N K) (transposed (hostFloats B) N K buffer) 0
        8).exponents c = exponentsB K N B c ∧
      (encoded (hostFloat casts) arrays (rowShape N K) (transposed (hostFloats B) N K buffer) 0
        8).precisions c = 8 :=
  stored_exponents casts (columnLine B N c)
    (encoded_row (hostFloat casts) arrays _ below positive)
    fun _ within => transposed_apply (hostFloats B) buffer below within

end Shapes

section Kernels

variable (memory : TiledMemory Float32.Model) (other : Int8Memory Float32.Model)
  (A B : Nat → FiniteFloat) (M K N : Nat) (splits : Splits)

-- Every scale of a call is a power of two, and zero rows and columns yield finite zeros on a
-- backend that multiplies.
structure TiledGenuine : Prop where
  scales : ∀ s ∈ tiledScales (hostFloat casts) memory (hostFloats A) (hostFloats B) M K N splits,
    Genuine casts s
  zeros : ∀ (backend : Backend) (C : Nat → Float32.Model),
    Multiplies (hostFloat casts) backend memory (hostFloats A) (hostFloats B) M K N splits →
      ∀ r < M, ∀ c < N, ZeroFloats K (rowLine A K r) ∨ ZeroFloats K (columnLine B N c) →
        FiniteZero (matmulTiled (hostFloat casts) backend memory (hostFloats A) (hostFloats B) C
          M K N splits (r * N + c))

-- matmul_int8 declares its codes of A as 16-bit words, so the product is stated of the bytes.
def MultipliesBytes (backend : Backend) : Prop :=
  let call := int8Call (hostFloat casts) other (hostFloats A) (hostFloats B) M K N
  ∀ r < M, ∀ c < N, ((backend call (r * N + c)).toNat : Int) =
    32768 + ∑ k ∈ Finset.range K, ((readByte call.a.bytes (r * K + k) : Int) - 127) *
      ((readByte call.b.bytes (c * K + k) : Int) - 127)

structure Int8Genuine : Prop where
  scales : ∀ s ∈ int8Scales (hostFloat casts) other (hostFloats A) (hostFloats B) M K N,
    Genuine casts s
  zeros : ∀ (backend : Backend) (C : Nat → Float32.Model),
    MultipliesBytes casts other A B M K N backend →
      ∀ r < M, ∀ c < N, ZeroFloats K (rowLine A K r) ∨ ZeroFloats K (columnLine B N c) →
        FiniteZero (matmulInt8 (hostFloat casts) backend other (hostFloats A) (hostFloats B) C
          M K N (r * N + c))

variable {M K N splits}

theorem tiledScales_genuine (positive : 0 < K) :
    (∀ s ∈ tiledScales (hostFloat casts) memory (hostFloats A) (hostFloats B) M K N splits,
        Genuine casts s) ↔
      ExponentsInRange K (rowLine A K) M ∧ ExponentsInRange K (columnLine B N) N ∧
        (0 < splits.k →
          SumsInRange (exponentsA K A) (exponentsB K N B) (M / splits.m) (N / splits.n)) := by
  have tall : M / splits.m ≤ M := Nat.div_le_self M splits.m
  have wide : N / splits.n ≤ N := Nat.div_le_self N splits.n
  have cells : (∀ s ∈ cellScales
      (tiledBlockA (hostFloat casts) memory (hostFloats A) M K).toBlockArrays
      (tiledBlockB (hostFloat casts) memory (hostFloats B) K N).toBlockArrays (M / splits.m)
      (N / splits.n), Genuine casts s) ↔
        SumsInRange (exponentsA K A) (exponentsB K N B) (M / splits.m) (N / splits.n) := by
    apply cellScales_genuine
    · intro r below
      exact row_stored casts A memory.blockA positive (by omega)
    · intro c inside
      obtain ⟨exponent, precision⟩ := column_stored casts B memory.blockB
        (fun _ => zeroFloat (hostFloat casts)) positive (by omega : c < N)
      rw [tiledBlockB, exponent, precision]
      rfl
  have rounds : (∀ step ∈ List.range splits.k, ∀ s ∈ cellScales
      (tiledBlockA (hostFloat casts) memory (hostFloats A) M K).toBlockArrays
      (tiledBlockB (hostFloat casts) memory (hostFloats B) K N).toBlockArrays (M / splits.m)
      (N / splits.n), Genuine casts s) ↔
        (0 < splits.k →
          SumsInRange (exponentsA K A) (exponentsB K N B) (M / splits.m) (N / splits.n)) := by
    rw [← cells]
    constructor
    · intro all some
      exact all 0 (List.mem_range.mpr some)
    · intro all step member
      have early := List.mem_range.mp member
      exact all (by omega)
  rw [tiledScales, List.forall_mem_append, List.forall_mem_append, List.forall_mem_flatMap,
    rowScales_genuine casts A memory.blockA positive,
    transposedScales_genuine casts B memory.blockB _ positive, rounds, and_assoc]

theorem int8Scales_genuine (positive : 0 < K) :
    (∀ s ∈ int8Scales (hostFloat casts) other (hostFloats A) (hostFloats B) M K N,
        Genuine casts s) ↔
      ExponentsInRange K (rowLine A K) M ∧ ExponentsInRange K (columnLine B N) N ∧
        SumsInRange (exponentsA K A) (exponentsB K N B) M N := by
  have cells : (∀ s ∈ cellScales
      (int8BlockA (hostFloat casts) other (hostFloats A) M K).toBlockArrays
      (int8BlockB (hostFloat casts) other (hostFloats B) K N).toBlockArrays M N,
        Genuine casts s) ↔ SumsInRange (exponentsA K A) (exponentsB K N B) M N := by
    apply cellScales_genuine
    · intro r below
      exact row_stored casts A other.blockA positive below
    · intro c inside
      obtain ⟨exponent, precision⟩ :=
        column_stored casts B other.blockB other.sliceB positive inside
      rw [int8BlockB, exponent, precision]
      rfl
  rw [int8Scales, List.forall_mem_append, List.forall_mem_append,
    rowScales_genuine casts A other.blockA positive,
    transposedScales_genuine casts B other.blockB other.sliceB positive, cells, and_assoc]

-- A zero row or column has the exponent -127, whose scale for the mean is fast_pow2(135).
theorem no_zero_lines (rows : ExponentsInRange K (rowLine A K) M)
    (columns : ExponentsInRange K (columnLine B N) N) {r c : Nat} (below : r < M) (inside : c < N) :
    ¬ (ZeroFloats K (rowLine A K r) ∨ ZeroFloats K (columnLine B N c)) := by
  intro zero
  rcases zero with row | column
  · have exponent := zeroFloats_exponent row
    have range := rows r below
    omega
  · have exponent := zeroFloats_exponent column
    have range := columns c inside
    omega

theorem tiledGenuine_iff (positive : 0 < K) :
    TiledGenuine casts memory A B M K N splits ↔
      ExponentsInRange K (rowLine A K) M ∧ ExponentsInRange K (columnLine B N) N ∧
        (0 < splits.k →
          SumsInRange (exponentsA K A) (exponentsB K N B) (M / splits.m) (N / splits.n)) := by
  rw [← tiledScales_genuine casts memory A B positive]
  constructor
  · intro genuine
    exact genuine.scales
  · intro scales
    obtain ⟨rows, columns, _⟩ := (tiledScales_genuine casts memory A B positive).mp scales
    refine ⟨scales, ?_⟩
    intro backend C _ r below c inside zero
    exact absurd zero (no_zero_lines A B rows columns below inside)

theorem int8Genuine_iff (positive : 0 < K) :
    Int8Genuine casts other A B M K N ↔
      ExponentsInRange K (rowLine A K) M ∧ ExponentsInRange K (columnLine B N) N ∧
        SumsInRange (exponentsA K A) (exponentsB K N B) M N := by
  rw [← int8Scales_genuine casts other A B positive]
  constructor
  · intro genuine
    exact genuine.scales
  · intro scales
    obtain ⟨rows, columns, _⟩ := (int8Scales_genuine casts other A B positive).mp scales
    refine ⟨scales, ?_⟩
    intro backend C _ r below c inside zero
    exact absurd zero (no_zero_lines A B rows columns below inside)

end Kernels

section Fallback

variable (values : Nat → FiniteFloat) (tasks : List (WeightTask Float32.Model))
  (queue : PrefetchQueue (PrefetchedBlock Float32.Model)) (call : FallbackCall Float32.Model)

def finiteState : PrefetchState Float32.Model :=
  { memory := hostFloats values, tasks := tasks, prefetchQueue := queue }

def operandA : Nat → FiniteFloat := fun i => values (call.A + i)

def operandB : Nat → FiniteFloat := fun i => values (call.B + i)

def rightExponents (c : Nat) : Int :=
  let block := (finiteState values tasks queue).rightOperand (hostFloat casts) call
  block.exponents c - block.precisions c + 8

structure FallbackGenuine : Prop where
  scales : ∀ s ∈ fallbackScales (hostFloat casts) (finiteState values tasks queue) call,
    Genuine casts s
  zeros : ∀ output,
    fallbackOutput (hostFloat casts) (finiteState values tasks queue) call = some output →
      (∀ r < call.M, ∀ c < call.N, output (r * call.N + c) = ∑ k ∈ Finset.range call.K,
        ((fallbackBlockA (hostFloat casts) (finiteState values tasks queue) call).mantissa
            (r * call.K + k)).toInt *
          (((finiteState values tasks queue).rightOperand (hostFloat casts) call).mantissa
            (k * call.N + c)).toInt) →
        ∀ r < call.M, ∀ c < call.N,
          ZeroFloats call.K (rowLine (operandA values call) call.K r) ∨
              (finiteState values tasks queue).usesPrefetched call = false ∧
                ZeroFloats call.K (columnLine (operandB values call) call.N c) →
            FiniteZero (((finiteState values tasks queue).matmulInt8Quantised (hostFloat casts)
              call).memory (call.C + (r * call.N + c)))

-- The columns of B count when no prefetched block replaces them, the cells once Invoke answers.
structure FallbackInRange : Prop where
  rows : ExponentsInRange call.K (rowLine (operandA values call) call.K) call.M
  columns : (finiteState values tasks queue).usesPrefetched call = false →
    ExponentsInRange call.K (columnLine (operandB values call) call.N) call.N
  cells : (fallbackOutput (hostFloat casts) (finiteState values tasks queue) call).isSome = true →
    SumsInRange (exponentsA call.K (operandA values call))
      (rightExponents casts values tasks queue call) call.M call.N

theorem fallbackScales_genuine (positive : 0 < call.K) :
    (∀ s ∈ fallbackScales (hostFloat casts) (finiteState values tasks queue) call,
        Genuine casts s) ↔
      (call.quantises = true → FallbackInRange casts values tasks queue call) := by
  have rows := rowScales_genuine casts (M := call.M) (operandA values call) call.arraysA positive
  have columns := columnScales_genuine casts (N := call.N) (operandB values call) call.arraysB
    positive
  have cells : (∀ s ∈ cellScales
      (fallbackBlockA (hostFloat casts) (finiteState values tasks queue) call).toBlockArrays
      ((finiteState values tasks queue).rightOperand (hostFloat casts) call).toBlockArrays
      call.M call.N, Genuine casts s) ↔
        SumsInRange (exponentsA call.K (operandA values call))
          (rightExponents casts values tasks queue call) call.M call.N := by
    apply cellScales_genuine
    · intro r below
      exact row_stored casts (operandA values call) call.arraysA positive below
    · intro c _
      rw [rightExponents]
      ring
  rw [fallbackScales]
  split
  case isFalse floats => simp [floats]
  case isTrue quantised =>
    rw [List.forall_mem_append, List.forall_mem_append]
    constructor
    · intro genuine _
      obtain ⟨⟨first, second⟩, third⟩ := genuine
      constructor
      · exact rows.mp first
      · intro fresh
        rw [fresh] at second
        exact columns.mp second
      · intro answered
        obtain ⟨output, some⟩ := Option.isSome_iff_exists.mp answered
        rw [some] at third
        exact cells.mp third
    · intro always
      have range := always quantised
      refine ⟨⟨rows.mpr range.rows, ?_⟩, ?_⟩
      · split
        next => simp
        next fresh => exact columns.mpr (range.columns (Bool.eq_false_of_not_eq_true fresh))
      · split
        next => simp
        next output answered => exact cells.mpr (range.cells (by rw [answered]; rfl))

theorem fallbackGenuine_iff (positive : 0 < call.K) :
    FallbackGenuine casts values tasks queue call ↔
      (call.quantises = true → FallbackInRange casts values tasks queue call) := by
  rw [← fallbackScales_genuine casts values tasks queue call positive]
  constructor
  · intro genuine
    exact genuine.scales
  · intro scales
    have always := (fallbackScales_genuine casts values tasks queue call positive).mp scales
    refine ⟨scales, ?_⟩
    intro output answered _ r below c inside zero
    have quantised : call.quantises = true := by
      unfold fallbackOutput at answered
      split at answered
      next quantised => exact quantised
      next => cases answered
    have range := always quantised
    rcases zero with row | ⟨fresh, column⟩
    · have exponent := zeroFloats_exponent row
      have bounds := range.rows r below
      omega
    · have exponent := zeroFloats_exponent column
      have bounds := range.columns fresh c inside
      omega

end Fallback

section Scales

variable (memory : TiledMemory Float32.Model) (other : Int8Memory Float32.Model)
  (A B : Nat → FiniteFloat) {M K N : Nat} {splits : Splits} (values : Nat → FiniteFloat)
  (tasks : List (WeightTask Float32.Model))
  (queue : PrefetchQueue (PrefetchedBlock Float32.Model)) (call : FallbackCall Float32.Model)

-- The scales are powers of two just when the exponents of the lines, and their sums, are in the
-- ranges that the shift can express.
theorem scales_genuine_iff (positive : 0 < K) (positiveCall : 0 < call.K) :
    (TiledGenuine casts memory A B M K N splits ↔
        ExponentsInRange K (rowLine A K) M ∧ ExponentsInRange K (columnLine B N) N ∧
          (0 < splits.k →
            SumsInRange (exponentsA K A) (exponentsB K N B) (M / splits.m) (N / splits.n))) ∧
      (Int8Genuine casts other A B M K N ↔
        ExponentsInRange K (rowLine A K) M ∧ ExponentsInRange K (columnLine B N) N ∧
          SumsInRange (exponentsA K A) (exponentsB K N B) M N) ∧
      (FallbackGenuine casts values tasks queue call ↔
        (call.quantises = true → FallbackInRange casts values tasks queue call)) :=
  ⟨tiledGenuine_iff casts memory A B positive, int8Genuine_iff casts other A B positive,
    fallbackGenuine_iff casts values tasks queue call positiveCall⟩

variable {A B} in
-- fast_pow2(-128) and fast_pow2(128) are infinities, and so is the cell or it is a NaN, whatever
-- the backend answers.
theorem infinite_cell (backend : Backend) (C : Nat → Float32.Model) (positive : 0 < K) {r c : Nat}
    (below : r < M) (inside : c < N)
    (infinite : exponentsA K A r + exponentsB K N B c = -112 ∨
      exponentsA K A r + exponentsB K N B c = 144) :
    biased (word (matmulInt8 (hostFloat casts) backend other (hostFloats A) (hostFloats B) C M K N
      (r * N + c))) = 255 := by
  have left : (rowStats (hostFloat casts) (hostFloats A) K r).exponent = exponentsA K A r :=
    (rowStats_line (rowLine A K r) casts fun _ _ => rfl).1
  have right : (columnStats (hostFloat casts) (hostFloats B) N K c).exponent =
      exponentsB K N B c := by
    rw [← rowStats_transposed (hostFloat casts) (hostFloats B) other.sliceB inside]
    exact (rowStats_line (columnLine B N c) casts
      fun _ within => transposed_apply (hostFloats B) other.sliceB inside within).1
  have scale : biased (word (fastPow2 (hostFloat casts)
      (exponentsA K A r + exponentsB K N B c - 16))) = 255 := by
    rw [fastPow2_host]
    rcases infinite with low | high
    · rw [low, power_below (by decide) (by decide), word_signedPower true (by decide) (by decide)]
      decide
    · rw [high, power_inside (by decide) (by decide), word_signedPower false (by decide) (by decide)]
      decide
  rw [matmulInt8_value (hostFloat casts) backend other _ _ C positive below inside, cellValue, left,
    right]
  exact add_special (.inl (mul_special (.inr scale)))

end Scales

end Host

def answeringCall : FallbackCall Float32.Model where
  A := 0
  B := 6
  C := 18
  M := 2
  K := 3
  N := 4
  backendChoice := 1
  arraysA := default
  arraysB := default
  interpreter := true
  invoke := fun left right => some fun i =>
    ∑ k ∈ Finset.range 3,
      (left.getD (i / 4 * 3 + k) 0).toInt * (right.getD (k * 4 + i % 4) 0).toInt
  invokeFloats := fun _ _ => none

theorem scales_genuine_ones :
    (TiledGenuine default default (fun _ => oneAndAHalf) (fun _ => oneAndAHalf) 2 6 4 ⟨1, 3, 2⟩ ↔
        ExponentsInRange 6 (rowLine (fun _ => oneAndAHalf) 6) 2 ∧
          ExponentsInRange 6 (columnLine (fun _ => oneAndAHalf) 4) 4 ∧
          (0 < 3 → SumsInRange (exponentsA 6 fun _ => oneAndAHalf)
            (exponentsB 6 4 fun _ => oneAndAHalf) (2 / 1) (4 / 2))) ∧
      (Int8Genuine default default (fun _ => oneAndAHalf) (fun _ => oneAndAHalf) 2 6 4 ↔
        ExponentsInRange 6 (rowLine (fun _ => oneAndAHalf) 6) 2 ∧
          ExponentsInRange 6 (columnLine (fun _ => oneAndAHalf) 4) 4 ∧
          SumsInRange (exponentsA 6 fun _ => oneAndAHalf) (exponentsB 6 4 fun _ => oneAndAHalf)
            2 4) ∧
      (FallbackGenuine default (fun _ => oneAndAHalf) [] { queue := [] } answeringCall ↔
        (answeringCall.quantises = true →
          FallbackInRange default (fun _ => oneAndAHalf) [] { queue := [] } answeringCall)) :=
  scales_genuine_iff default default default _ _ _ _ _ _ (by decide) (by decide)

def sixteenK : FiniteFloat := { bits := 0x46800000#32, finite := by decide }

-- A zero row needs fast_pow2(135), and beside a column with the exponent 15 it yields a NaN.
theorem zero_row_not_finite :
    ¬ TiledGenuine default default (fun _ => zero) (fun _ => sixteenK) 1 1 1 whole ∧
      ¬ Int8Genuine default default (fun _ => zero) (fun _ => sixteenK) 1 1 1 ∧
      ∀ backend C, biased (word (matmulInt8 (hostFloat default) backend default
        (hostFloats fun _ => zero) (hostFloats fun _ => sixteenK) C 1 1 1 0)) = 255 := by
  have zeroField : maxField 1 (fun _ => zero.bits) = 0 := by decide
  have field : maxField 1 (fun _ => sixteenK.bits) = 141 := by decide
  have lowest : hostExponent 1 (rowLine (fun _ => zero) 1 0) = -127 := by
    simp only [hostExponent, fieldExponent, rowLine, zeroField]
    rfl
  have fifteen : hostExponent 1 (columnLine (fun _ => sixteenK) 1 0) = 15 := by
    simp only [hostExponent, fieldExponent, columnLine, field]
    rfl
  have out : ¬ ExponentsInRange 1 (rowLine (fun _ => zero) 1) 1 := by
    intro range
    have here := range 0 (by decide)
    omega
  refine ⟨?_, ?_, ?_⟩
  · intro genuine
    exact out ((tiledGenuine_iff default default _ _ (by decide)).mp genuine).1
  · intro genuine
    exact out ((int8Genuine_iff default default _ _ (by decide)).mp genuine).1
  · intro backend C
    apply infinite_cell default default backend C (by decide) (r := 0) (c := 0) (by decide)
      (by decide)
    left
    rw [exponentsA, exponentsB, lowest, fifteen]
    decide

end NpuMatmul
