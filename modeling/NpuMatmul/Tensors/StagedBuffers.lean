import NpuMatmul.Engine.CachedEntries
import NpuMatmul.Pipeline.KernelSpec
import NpuMatmul.Tensors.CachedGraph

set_option autoImplicit false

namespace NpuMatmul

open Loop

section Allocations

-- A buffer: how many bytes were asked for, and what has been stored at each offset.
structure Allocation where
  requested : Nat
  bytes : Nat → Option (BitVec 8)

namespace Allocation

def alloc (requested : Nat) : Allocation := { requested := requested, bytes := fun _ => none }

-- buffer[index] = value, for elements of this many bytes, the low byte first.
def set (width index value : Nat) (buffer : Allocation) : Allocation :=
  { buffer with
    bytes := fun p =>
      if p / width = index then some (BitVec.ofNat 8 (value / 256 ^ (p % width)))
      else buffer.bytes p }

def memsetZero (count : Nat) (buffer : Allocation) : Allocation :=
  { buffer with bytes := fun p => if p < count then some 0 else buffer.bytes p }

def assign (source : Allocation) (count : Nat) : Allocation :=
  { requested := count, bytes := fun p => if p < count then source.bytes p else none }

end Allocation

-- A product of ints; on overflow the behaviour is undefined.
def intMul (a b : Nat) : Option Nat := if a * b < 2 ^ 31 then some (a * b) else none

structure StagedBuffers where
  uA : Allocation
  uB : Allocation
  out : Allocation

def stageInt8 (mantissaA mantissaB : Nat → BitVec 8) (M K N : Nat) : Option StagedBuffers := do
  let countA ← intMul M K
  let countB ← intMul N K
  let countC ← intMul M N
  let sizeC ← intMul countC 2
  some
    { uA := forLoop countA (fun i => .set 1 i (mantissaA i + 127#8).toNat) (.alloc countA)
      uB := forLoop countB (fun i => .set 1 i (mantissaB i + 127#8).toNat) (.alloc countB)
      out := .alloc sizeC }

def blockCodes {width : Nat} (mantissa : Nat → BitVec width) (K kBlock step r c : Nat) : Nat :=
  (mantissa (r * K + step * kBlock + c) + BitVec.ofNat width 127).toNat

-- The buffers of one round of matmul_tiled. The sizes are size_t from the first sizeof on.
def stageTiled (mantissaA : Nat → BitVec 16) (mantissaB : Nat → BitVec 8)
    (mBlock K kBlock nBlock step : Nat) : Option StagedBuffers := do
  let countC ← intMul mBlock nBlock
  let countA ← intMul mBlock kBlock
  let countB ← intMul nBlock kBlock
  some
    { uA :=
        grid mBlock kBlock
          (fun r c => .set 2 (r * kBlock + c) (blockCodes mantissaA K kBlock step r c))
          (.alloc (countA * 2))
      uB :=
        grid nBlock kBlock
          (fun r c => .set 1 (r * kBlock + c) (blockCodes mantissaB K kBlock step r c))
          (.alloc (countB * 1))
      out := (Allocation.alloc (countC * 2)).memsetZero (countC * 2) }

end Allocations

structure ExecTensors where
  a : ExecTensor Allocation
  b : ExecTensor Allocation
  c : ExecTensor Allocation

def CachedGraph.declared (graph : CachedGraph) (tensorBType : TensorType) :
    QnnCachedGraph Allocation :=
  { isValid := graph.isValid
    M := graph.M
    K := graph.K
    N := graph.N
    tensorBType := tensorBType
    staticWeights := none }

def GraphExecute.tensors (run : GraphExecute Allocation) : Option ExecTensors :=
  match run.inputs, run.graph.staticWeights with
  | [a, b], _ => some { a := a, b := b, c := run.output }
  | [a], some weights =>
      some
        { a := a
          b := .of run.graph.tensorBType (tensorB run.graph.N run.graph.K) weights
          c := run.output }
  | _, _ => none

-- pipeline.h sets the sizes from its own blocks, on tensors copied from the graph.
def CachedGraph.tiledTensors (graph : CachedGraph) (mBlock kBlock nBlock : Nat)
    (staged : StagedBuffers) : ExecTensors :=
  { a :=
      { type := .appWrite
        tensor := tensorA graph.M graph.K
        data := staged.uA
        dataSize := mBlock * kBlock * 2 % 2 ^ 32 }
    b :=
      { type := .appWrite
        tensor := tensorB graph.N graph.K
        data := staged.uB
        dataSize := nBlock * kBlock * 1 % 2 ^ 32 }
    c :=
      { type := .appRead
        tensor := tensorC graph.M graph.N
        data := staged.out
        dataSize := mBlock * nBlock * 2 % 2 ^ 32 } }

-- A kernel that has encoded its operands, at a graphExecute. tensorBType is what the graph that
-- matmul_int8 is served was built with.
inductive KernelCall where
  | matmulInt8 (M K N : Nat) (useStaticWeights : Bool) (outcome : BuildOutcome)
      (tensorBType : TensorType) (mantissaA mantissaB : Nat → BitVec 8)
  | matmulTiled (M K N : Nat) (splits : Splits) (outcome : BuildOutcome) (step : Nat)
      (mantissaA : Nat → BitVec 16) (mantissaB : Nat → BitVec 8)

namespace KernelCall

def isTiled : KernelCall → Bool
  | .matmulInt8 .. => false
  | .matmulTiled .. => true

def Positive : KernelCall → Prop
  | .matmulInt8 M K N .. => 0 < M ∧ 0 < K ∧ 0 < N
  | .matmulTiled M K N splits .. =>
      0 < M ∧ 0 < K ∧ 0 < N ∧ 0 < splits.m ∧ 0 < splits.k ∧ 0 < splits.n

def codesA : KernelCall → Nat → Nat → Nat
  | .matmulInt8 _ K _ _ _ _ mantissaA _ => fun r c => (mantissaA (r * K + c) + 127#8).toNat
  | .matmulTiled _ K _ splits _ step mantissaA _ => blockCodes mantissaA K (K / splits.k) step

def codesB : KernelCall → Nat → Nat → Nat
  | .matmulInt8 _ K _ _ _ _ _ mantissaB => fun r c => (mantissaB (r * K + c) + 127#8).toNat
  | .matmulTiled _ K _ splits _ step _ mantissaB => blockCodes mantissaB K (K / splits.k) step

end KernelCall

def State.execTensors (s : State) : KernelCall → Option ExecTensors
  | .matmulInt8 M K N useStaticWeights outcome tensorBType mantissaA mantissaB => do
      let (_, graph) ← s.getOrCreateGraph M K N useStaticWeights none outcome
      if graph.isValid then
        let staged ← stageInt8 mantissaA mantissaB M K N
        ((graph.declared tensorBType).execute Allocation.assign useStaticWeights staged.uA
          staged.uB staged.out).tensors
      else none
  | .matmulTiled M K N splits outcome step mantissaA mantissaB => do
      let (_, graph) := s.dynamicGraph (M / splits.m) (K / splits.k) (N / splits.n) outcome
      if graph.isValid ∧ step < splits.k then
        let staged ← stageTiled mantissaA mantissaB (M / splits.m) K (K / splits.k)
          (N / splits.n) step
        some (graph.tiledTensors (M / splits.m) (K / splits.k) (N / splits.n) staged)
      else none

section Property

structure Sized (tensor : ExecTensor Allocation) : Prop where
  declared : tensor.dataSize = tensor.tensor.byteCount
  requested : tensor.dataSize ≤ tensor.data.requested

-- The bytes stored are those of the elements in row-major order, at the declared width.
structure Filled (tensor : ExecTensor Allocation) (codes : Nat → Nat → Nat) : Prop where
  initialised : ∀ p, (tensor.data.bytes p).isSome ↔ p < tensor.dataSize
  rowMajor : ∀ rows cols, tensor.tensor.dimensions = [rows, cols] →
    ∀ r < rows, ∀ c < cols, ∀ byte < getDataTypeSize tensor.tensor.dataType,
      tensor.data.bytes ((r * cols + c) * getDataTypeSize tensor.tensor.dataType + byte) =
        some (BitVec.ofNat 8 (codes r c / 256 ^ byte))

structure ExecTensors.MatchBuffers (tensors : ExecTensors) (codesA codesB : Nat → Nat → Nat) :
    Prop where
  sizedA : Sized tensors.a
  sizedB : Sized tensors.b
  sizedC : Sized tensors.c
  filledA : Filled tensors.a codesA
  filledB : Filled tensors.b codesB

end Property

section Filling

namespace Allocation

@[simp] theorem set_requested (width index value : Nat) (buffer : Allocation) :
    (buffer.set width index value).requested = buffer.requested := rfl

theorem set_other {width index value : Nat} {buffer : Allocation} {p : Nat}
    (apart : p / width ≠ index) : (buffer.set width index value).bytes p = buffer.bytes p := by
  simp [set, apart]

theorem set_own {width index value : Nat} {buffer : Allocation} {p : Nat}
    (own : p / width = index) : (buffer.set width index value).bytes p =
      some (BitVec.ofNat 8 (value / 256 ^ (p % width))) := by
  simp [set, own]

variable {width rows cols : Nat} (code : Nat → Nat → Nat) (buffer : Allocation)

def fill (width rows cols : Nat) : Allocation :=
  grid rows cols (fun r c => .set width (r * cols + c) (code r c)) buffer

theorem fill_requested : (buffer.fill code width rows cols).requested = buffer.requested := by
  apply grid_keeps (P := fun current : Allocation => current.requested = buffer.requested)
  · rfl
  · intro r c current _ _ same
    exact same

theorem fill_inside {p : Nat} (inside : p / width < rows * cols) :
    (buffer.fill code width rows cols).bytes p =
      some (BitVec.ofNat 8
        (code (p / width / cols) (p / width % cols) / 256 ^ (p % width))) := by
  obtain ⟨row, column, place⟩ := rowMajor_split inside
  apply grid_once (fun current : Allocation => current.bytes p)
    (fun _ => some (BitVec.ofNat 8 (code (p / width / cols) (p / width % cols) / 256 ^ (p % width))))
    row column
  · intro r c current below within other
    apply set_other
    intro same
    rw [← place] at same
    have equal := rowMajor_injective column within same
    exact other ⟨equal.1.symm, equal.2.symm⟩
  · intro current
    exact set_own place.symm

theorem fill_outside {p : Nat} (outside : rows * cols ≤ p / width) :
    (buffer.fill code width rows cols).bytes p = buffer.bytes p := by
  apply grid_keeps (P := fun current : Allocation => current.bytes p = buffer.bytes p)
  · rfl
  · intro r c current below within same
    rw [set_other, same]
    have cell := rowMajor_lt below within
    omega

theorem forLoop_set (n : Nat) (value : Nat → Nat) :
    forLoop n (fun i => set width i (value i)) buffer =
      buffer.fill (fun _ c => value c) width 1 n := by
  simp [fill, grid]

end Allocation

theorem getDataTypeSize_pos (dataType : DataType) : 0 < getDataTypeSize dataType := by
  cases dataType <;> decide

theorem byteCount_of_dims {tensor : Tensor} {rows cols : Nat}
    (dims : tensor.dimensions = [rows, cols]) :
    tensor.byteCount = rows * cols * getDataTypeSize tensor.dataType := by
  simp [Tensor.byteCount, dims]

theorem Filled.of_bytes {tensor : ExecTensor Allocation} {codes : Nat → Nat → Nat}
    {rows cols : Nat} (dims : tensor.tensor.dimensions = [rows, cols])
    (size : tensor.dataSize = tensor.tensor.byteCount)
    (inside : ∀ p, p / getDataTypeSize tensor.tensor.dataType < rows * cols →
      tensor.data.bytes p = some (BitVec.ofNat 8
        (codes (p / getDataTypeSize tensor.tensor.dataType / cols)
          (p / getDataTypeSize tensor.tensor.dataType % cols) /
            256 ^ (p % getDataTypeSize tensor.tensor.dataType))))
    (outside : ∀ p, rows * cols ≤ p / getDataTypeSize tensor.tensor.dataType →
      tensor.data.bytes p = none) : Filled tensor codes := by
  have positive := getDataTypeSize_pos tensor.tensor.dataType
  constructor
  · intro p
    rw [size, byteCount_of_dims dims, ← Nat.div_lt_iff_lt_mul positive]
    by_cases below : p / getDataTypeSize tensor.tensor.dataType < rows * cols
    · simp [inside p below, below]
    · simp [outside p (Nat.le_of_not_lt below), below]
  · intro r c same row below column within byte part
    rw [dims] at same
    obtain ⟨rfl, rfl⟩ : rows = r ∧ cols = c := by simpa using same
    rw [inside _ (by rw [rowMajor_div _ part]; exact rowMajor_lt below within),
      rowMajor_div _ part, rowMajor_mod _ part, rowMajor_div row within, rowMajor_mod row within]

theorem matches_of_fill {tensor : ExecTensor Allocation} {codes : Nat → Nat → Nat}
    {rows cols requested : Nat} (dims : tensor.tensor.dimensions = [rows, cols])
    (size : tensor.dataSize = tensor.tensor.byteCount)
    (data : tensor.data = (Allocation.alloc requested).fill codes
      (getDataTypeSize tensor.tensor.dataType) rows cols)
    (room : tensor.tensor.byteCount ≤ requested) : Sized tensor ∧ Filled tensor codes := by
  constructor
  · refine ⟨size, ?_⟩
    rw [size, data, Allocation.fill_requested]
    exact room
  · apply Filled.of_bytes dims size
    · intro p inside
      rw [data]
      exact Allocation.fill_inside _ _ inside
    · intro p outside
      rw [data]
      exact Allocation.fill_outside _ _ outside

end Filling

section Staged

theorem intMul_eq_some {a b n : Nat} (product : intMul a b = some n) :
    a * b < 2 ^ 31 ∧ n = a * b := by
  unfold intMul at product
  split at product <;> cases product
  case isTrue fits => exact ⟨fits, rfl⟩

variable {mBlock K kBlock nBlock step M N : Nat} {staged : StagedBuffers}

theorem stageTiled_cases {mantissaA : Nat → BitVec 16} {mantissaB : Nat → BitVec 8}
    (returned : stageTiled mantissaA mantissaB mBlock K kBlock nBlock step = some staged) :
    (mBlock * nBlock < 2 ^ 31 ∧ mBlock * kBlock < 2 ^ 31 ∧ nBlock * kBlock < 2 ^ 31) ∧
      staged.uA = (Allocation.alloc (mBlock * kBlock * 2)).fill
        (blockCodes mantissaA K kBlock step) 2 mBlock kBlock ∧
      staged.uB = (Allocation.alloc (nBlock * kBlock)).fill
        (blockCodes mantissaB K kBlock step) 1 nBlock kBlock ∧
      staged.out.requested = mBlock * nBlock * 2 := by
  simp only [stageTiled, Option.bind_eq_bind, Option.bind_eq_some_iff] at returned
  obtain ⟨countC, productC, countA, productA, countB, productB, built⟩ := returned
  obtain ⟨fitsC, rfl⟩ := intMul_eq_some productC
  obtain ⟨fitsA, rfl⟩ := intMul_eq_some productA
  obtain ⟨fitsB, rfl⟩ := intMul_eq_some productB
  cases built
  exact ⟨⟨fitsC, fitsA, fitsB⟩, rfl, by rw [Nat.mul_one]; rfl, rfl⟩

theorem stageInt8_cases {mantissaA mantissaB : Nat → BitVec 8}
    (returned : stageInt8 mantissaA mantissaB M K N = some staged) :
    (M * K < 2 ^ 31 ∧ N * K < 2 ^ 31 ∧ M * N * 2 < 2 ^ 31) ∧
      staged.uA = (Allocation.alloc (M * K)).fill
        (fun _ i => (mantissaA i + 127#8).toNat) 1 1 (M * K) ∧
      staged.uB = (Allocation.alloc (N * K)).fill
        (fun _ i => (mantissaB i + 127#8).toNat) 1 1 (N * K) ∧
      staged.out.requested = M * N * 2 := by
  simp only [stageInt8, Option.bind_eq_bind, Option.bind_eq_some_iff] at returned
  obtain ⟨countA, productA, countB, productB, countC, productC, sizeC, doubled, built⟩ := returned
  obtain ⟨fitsA, rfl⟩ := intMul_eq_some productA
  obtain ⟨fitsB, rfl⟩ := intMul_eq_some productB
  obtain ⟨_, rfl⟩ := intMul_eq_some productC
  obtain ⟨fitsC, rfl⟩ := intMul_eq_some doubled
  cases built
  exact ⟨⟨fitsA, fitsB, fitsC⟩, Allocation.forLoop_set _ _ _, Allocation.forLoop_set _ _ _, rfl⟩

end Staged

section Calls

variable {F : Type} (fp : FloatArith F)

theorem wordBytes_eq (buffer : Nat → BitVec 16) (p : Nat) :
    wordBytes buffer p = BitVec.ofNat 8 ((buffer (p / 2)).toNat / 256 ^ (p % 2)) := by
  have parity : p % 2 = 0 ∨ p % 2 = 1 := by omega
  apply BitVec.eq_of_toNat_eq
  obtain even | odd := parity
  · simp [wordBytes, even]
  · simp [wordBytes, odd, Nat.shiftRight_eq_div_pow]

theorem tiledCall_staged (memory : TiledMemory F) (A B : Nat → F) (M K N : Nat) (splits : Splits)
    (step : Nat) {staged : StagedBuffers}
    (returned : stageTiled (tiledBlockA fp memory A M K).mantissa
      (tiledBlockB fp memory B K N).mantissa (M / splits.m) K (K / splits.k) (N / splits.n) step =
        some staged) :
    let call := tiledCall fp memory A B M K N splits step
    (∀ p < M / splits.m * (K / splits.k) * 2, staged.uA.bytes p = some (call.a.bytes.getD p 0)) ∧
      ∀ p < N / splits.n * (K / splits.k), staged.uB.bytes p = some (call.b.bytes.getD p 0) := by
  obtain ⟨_, uA, uB, _⟩ := stageTiled_cases returned
  constructor
  · intro p below
    have inside : p / 2 < M / splits.m * (K / splits.k) := by omega
    obtain ⟨row, column, place⟩ := rowMajor_split inside
    have code := packCodes_apply (tiledBlockA fp memory A M K).mantissa (K := K) step
      (memory.uABuf step) row column
    rw [place] at code
    change staged.uA.bytes p = some ((bytesOf _ _).getD p 0)
    rw [uA, Allocation.fill_inside _ _ inside, getD_bytesOf _ below, wordBytes_eq, code]
    rfl
  · intro p below
    have inside : p / 1 < N / splits.n * (K / splits.k) := by rwa [Nat.div_one]
    obtain ⟨row, column, place⟩ := rowMajor_split inside
    have code := packCodes_apply (tiledBlockB fp memory B K N).mantissa (K := K) step
      (memory.uBBuf step) row column
    rw [place, Nat.div_one] at code
    change staged.uB.bytes p = some ((bytesOf _ _).getD p 0)
    rw [uB, Allocation.fill_inside _ _ inside, getD_bytesOf _ below, code, Nat.mod_one,
      Nat.div_one, Nat.pow_zero, Nat.div_one, blockCodes, BitVec.ofNat_toNat, BitVec.setWidth_eq]

end Calls

section Kernels

variable {M K N : Nat}

theorem tensorA_byteCount : (tensorA M K).byteCount = M * K * 2 := by
  simp [Tensor.byteCount, tensorA, getDataTypeSize]

theorem tensorB_byteCount : (tensorB N K).byteCount = N * K := by
  simp [Tensor.byteCount, tensorB, getDataTypeSize]

theorem tensorC_byteCount : (tensorC M N).byteCount = M * N * 2 := by
  simp [Tensor.byteCount, tensorC, getDataTypeSize]

theorem tiledTensors_match {graph : CachedGraph} {mBlock kBlock nBlock step : Nat}
    {mantissaA : Nat → BitVec 16} {mantissaB : Nat → BitVec 8} {staged : StagedBuffers}
    (shape : graph.M = mBlock ∧ graph.K = kBlock ∧ graph.N = nBlock)
    (returned : stageTiled mantissaA mantissaB mBlock K kBlock nBlock step = some staged) :
    (graph.tiledTensors mBlock kBlock nBlock staged).MatchBuffers
      (blockCodes mantissaA K kBlock step) (blockCodes mantissaB K kBlock step) := by
  obtain ⟨rfl, rfl, rfl⟩ := shape
  obtain ⟨⟨fitsC, fitsA, fitsB⟩, uA, uB, out⟩ := stageTiled_cases returned
  have sizeA : graph.M * graph.K * 2 % 2 ^ 32 = (tensorA graph.M graph.K).byteCount := by
    rw [tensorA_byteCount]
    exact Nat.mod_eq_of_lt (by omega)
  have sizeB : graph.N * graph.K * 1 % 2 ^ 32 = (tensorB graph.N graph.K).byteCount := by
    rw [tensorB_byteCount, Nat.mul_one]
    exact Nat.mod_eq_of_lt (by omega)
  have sizeC : graph.M * graph.N * 2 % 2 ^ 32 = (tensorC graph.M graph.N).byteCount := by
    rw [tensorC_byteCount]
    exact Nat.mod_eq_of_lt (by omega)
  let tensors := graph.tiledTensors graph.M graph.K graph.N staged
  have a : Sized tensors.a ∧ Filled tensors.a (blockCodes mantissaA K graph.K step) :=
    matches_of_fill rfl sizeA uA tensorA_byteCount.le
  have b : Sized tensors.b ∧ Filled tensors.b (blockCodes mantissaB K graph.K step) :=
    matches_of_fill rfl sizeB uB tensorB_byteCount.le
  refine ⟨a.1, b.1, ⟨sizeC, ?_⟩, a.2, b.2⟩
  change _ ≤ staged.out.requested
  rw [out, ← tensorC_byteCount]
  exact sizeC.le

theorem int8Tensors_mismatch {graph : CachedGraph} {tensorBType : TensorType}
    {useStaticWeights : Bool} {mantissaA mantissaB : Nat → BitVec 8} {staged : StagedBuffers}
    {tensors : ExecTensors} {codesA codesB : Nat → Nat → Nat} (rows : 0 < graph.M)
    (inner : 0 < graph.K)
    (returned : stageInt8 mantissaA mantissaB graph.M graph.K graph.N = some staged)
    (handed : ((graph.declared tensorBType).execute Allocation.assign useStaticWeights staged.uA
      staged.uB staged.out).tensors = some tensors) :
    ¬ tensors.MatchBuffers codesA codesB := by
  obtain ⟨_, uA, _, _⟩ := stageInt8_cases returned
  have passed : tensors.a = .of .appWrite (tensorA graph.M graph.K) staged.uA := by
    cases useStaticWeights <;> cases handed <;> rfl
  intro same
  have size := same.sizedA.declared
  have stored := same.filledA.initialised (graph.M * graph.K)
  have missing : tensors.a.data.bytes (graph.M * graph.K) = none := by
    rw [passed]
    change staged.uA.bytes _ = none
    rw [uA, Allocation.fill_outside _ _ (by simp)]
    rfl
  have declared : tensors.a.tensor.byteCount = graph.M * graph.K * 2 := by
    rw [passed]
    exact tensorA_byteCount
  have cells : 0 < graph.M * graph.K := Nat.mul_pos rows inner
  rw [missing, size, declared] at stored
  simp at stored
  omega

end Kernels

-- At every graphExecute of matmul_tiled, and at none of matmul_int8, each tensor matches its
-- buffer.
theorem buffers_match_iff {load : LoadOutcome} {requests : List Request} {s : State}
    (reached : Runs.after step (start load) requests = some s) (call : KernelCall)
    (positive : call.Positive) {tensors : ExecTensors} (handed : s.execTensors call = some tensors) :
    tensors.MatchBuffers call.codesA call.codesB ↔ call.isTiled = true := by
  have keyed := keyedByShape_after reached
  cases call with
  | matmulInt8 M K N useStaticWeights outcome tensorBType mantissaA mantissaB =>
      simp only [State.execTensors, Option.bind_eq_bind, Option.bind_eq_some_iff] at handed
      obtain ⟨⟨t, graph⟩, served, handed⟩ := handed
      split at handed
      case isFalse => cases handed
      case isTrue valid =>
        obtain ⟨staged, returned, executed⟩ := Option.bind_eq_some_iff.mp handed
        obtain ⟨rfl, rfl, rfl⟩ := keyed.getOrCreateGraph served valid
        rw [KernelCall.isTiled, Bool.false_eq_true, iff_false]
        exact int8Tensors_mismatch positive.1 positive.2.1 returned executed
  | matmulTiled M K N splits outcome step mantissaA mantissaB =>
      simp only [State.execTensors] at handed
      split at handed
      case isFalse => cases handed
      case isTrue valid =>
        obtain ⟨staged, returned, executed⟩ := Option.bind_eq_some_iff.mp handed
        cases executed
        simp only [KernelCall.isTiled, iff_true]
        exact tiledTensors_match (keyed.dynamicGraph Prod.mk.eta.symm) returned

def loadedState : State := start (loadsWith fullTable)

def tiledOnce : KernelCall :=
  .matmulTiled 2 6 4 ⟨1, 2, 1⟩ .finalized 1 (BitVec.ofNat 16) (BitVec.ofNat 8)

def int8Once : KernelCall :=
  .matmulInt8 1 1 1 false .finalized .appWrite (fun _ => 0) fun _ => 0

theorem tiledOnce_matches :
    ∃ tensors, loadedState.execTensors tiledOnce = some tensors ∧
      tensors.MatchBuffers tiledOnce.codesA tiledOnce.codesB := by
  have handed : loadedState.execTensors tiledOnce = some _ := rfl
  have reached : Runs.after step (start (loadsWith fullTable)) [] = some loadedState := rfl
  refine ⟨_, handed, (buffers_match_iff reached tiledOnce ?_ handed).mpr rfl⟩
  simp [tiledOnce, KernelCall.Positive]

-- Two bytes are declared for the one code of A, and one is stored.
theorem int8Once_mismatch :
    ∃ tensors, loadedState.execTensors int8Once = some tensors ∧
      ¬ tensors.MatchBuffers int8Once.codesA int8Once.codesB := by
  have handed : loadedState.execTensors int8Once = some _ := rfl
  refine ⟨_, handed, fun same => ?_⟩
  have stored := same.filledA.initialised 1
  revert stored
  decide

end NpuMatmul
