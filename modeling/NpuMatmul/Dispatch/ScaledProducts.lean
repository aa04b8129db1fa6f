import NpuMatmul.Dispatch.Oblivious
import NpuMatmul.Dispatch.PatchedCells
import NpuMatmul.Pipeline.Scaling

set_option autoImplicit false

namespace NpuMatmul

open NdArray RowMajor

section Tensors

-- A power of two on each row: on the entries whose indices differ in the last place only.
structure RowsTimes (a a' : TorchTensor ℚ) (s : List Nat → Int) : Prop where
  same : SameTensor a a'
  entry : ∀ index x, a'.entry (index ++ [x]) = a.entry (index ++ [x]) * 2 ^ s index

structure ColumnsTimes (b b' : TorchTensor ℚ) (t : List Nat → List Nat → Int) : Prop where
  same : SameTensor b b'
  entry : ∀ index x column, Inside (columnDims b.shape) column →
    b'.entry (index ++ x :: column) = b.entry (index ++ x :: column) * 2 ^ t index column

variable {a a' b b' : TorchTensor ℚ} {inner : Nat} {s : List Nat → Int}
  {t : List Nat → List Nat → Int}

def paddedRow (a : TorchTensor ℚ) (inner : Nat) (index : List Nat) : Nat → ℚ :=
  zeroExtended inner fun x => a.entry (index ++ [x])

def paddedColumn (b : TorchTensor ℚ) (inner : Nat) (index column : List Nat) : Nat → ℚ :=
  zeroExtended inner fun x => b.entry (index ++ x :: column)

theorem zeroExtended_scaled {line line' : Nat → ℚ} {shift : Int}
    (scaled : ∀ x, line' x = line x * 2 ^ shift) :
    zeroExtended inner line' = scaledLine (zeroExtended inner line) shift := by
  funext x
  rw [scaledLine, zeroExtended, zeroExtended]
  split
  · exact scaled x
  · rw [zero_mul]

theorem RowsTimes.line (times : RowsTimes a a' s) (index : List Nat) :
    paddedRow a' inner index = scaledLine (paddedRow a inner index) (s index) :=
  zeroExtended_scaled fun x => times.entry index x

theorem ColumnsTimes.line (times : ColumnsTimes b b' t) (index : List Nat) {column : List Nat}
    (inside : Inside (columnDims b.shape) column) :
    paddedColumn b' inner index column =
      scaledLine (paddedColumn b inner index column) (t index column) :=
  zeroExtended_scaled fun x => times.entry index x column inside

structure ProductTimes (K inner : Nat) (a b : TorchTensor ℚ) (s : List Nat → Int)
    (t : List Nat → List Nat → Int) (c c' : NdArray ℚ) (batch : List Nat) : Prop where
  shape : c'.shape = c.shape
  entry : ∀ index row column, Inside batch index → Inside (rowDims a.shape) row →
    Inside (columnDims b.shape) column →
      let lead := project (leading a.shape) index ++ row
      let leadB := project (leading b.shape) index
      CellRescales K (paddedRow a inner lead) (paddedColumn b inner leadB column) (s lead)
          (t leadB column) →
        c'.entry (index ++ row ++ column) =
          c.entry (index ++ row ++ column) * 2 ^ (s lead + t leadB column)

theorem cells_times (host : Unspecified) {K kSplit : Nat} {cell : List Nat → List Nat → BitVec 16}
    {batch : List Nat} {c c' : NdArray ℚ} (rows : RowsTimes a a' s) (columns : ColumnsTimes b b' t)
    (cells : IsCells (lineCell (exact host) K kSplit cell) a.toNdArray b.toNdArray c inner batch)
    (cells' : IsCells (lineCell (exact host) K kSplit cell) a'.toNdArray b'.toNdArray c' inner
      batch) :
    ProductTimes K inner a b s t c c' batch := by
  have shapeA : a'.shape = a.shape := rows.same.shape.symm
  have shapeB : b'.shape = b.shape := columns.same.shape.symm
  constructor
  · rw [cells.shape, cells'.shape, shapeA, shapeB]
  · intro index row column inside insideRow insideColumn lead leadB rescales
    have own := cells.entry index row column inside insideRow insideColumn
    have own' := cells'.entry index row column inside (by rw [shapeA]; exact insideRow)
      (by rw [shapeB]; exact insideColumn)
    have line : zeroExtended inner (fun x => a'.entry (lead ++ [x])) =
        scaledLine (paddedRow a inner lead) (s lead) := rows.line lead
    have other : zeroExtended inner (fun x => b'.entry (leadB ++ x :: column)) =
        scaledLine (paddedColumn b inner leadB column) (t leadB column) :=
      columns.line leadB insideColumn
    rw [shapeA, shapeB, line, other, lineCell_scaled host rescales] at own'
    rw [own', own]
    rfl

end Tensors

section Patched

variable {settings : Settings} {backend : Int → Backend} {cell : List Nat → List Nat → BitVec 16}

-- The patched torch.matmul has no absolute scale: a power of two on a row of a or on a column of b
-- comes out of the entries that use it, through every rank, the padding and the quantisation.
theorem patched_product_scales (host : Unspecified) (memory memory' : NpuMemory ℚ)
    (matmulOriginal : TorchTensor ℚ → TorchTensor ℚ → Option (NdArray ℚ) → Option (NdArray ℚ))
    {a a' b b' : TorchTensor ℚ} {s : List Nat → Int} {t : List Nat → List Nat → Int}
    (rows : RowsTimes a a' s) (columns : ColumnsTimes b b' t) {inner n : Nat} {batch : List Nat}
    {backendChoice : Option Int} (cpuA : a.CpuFloat32) (cpuB : b.CpuFloat32)
    (positiveA : PositiveDims a.shape) (positiveB : PositiveDims b.shape)
    (multiplies : Multipliable a.shape b.shape inner batch)
    (served : LeftToKernels a.shape b.shape) (last : columnDims b.shape = [n])
    (few : a.shape.dropLast.prod ≤ 1024) (narrow : n ≤ 1024)
    (cuts : settings.CutsInner (padded inner))
    (rowwise : Rowwise (backend (chosen settings backendChoice))
      (padded inner / (settings.defaultKSplit (padded inner)).toNat) cell) (frames : Nat) :
    (matmulPatch settings (npuBackends (exact host) backend memory matmulOriginal) (frames + 3) a b
        none backendChoice).Returns fun c =>
      (matmulPatch settings (npuBackends (exact host) backend memory' matmulOriginal) (frames + 3)
        a' b' none backendChoice).Returns fun c' =>
          ProductTimes (padded inner) inner a b s t c c' batch := by
  have width : 0 < n := by
    have member : n ∈ columnDims b.shape := by simp [last]
    exact positiveB n (List.mem_of_mem_drop (List.mem_of_mem_tail member))
  have kernels (memory : NpuMemory ℚ) := npuKernel_cells (exact host) memory matmulOriginal cuts
    (width.trans_le (le_padded n)) (padded_le narrow) rowwise
  have shapeA : a'.shape = a.shape := rows.same.shape.symm
  have shapeB : b'.shape = b.shape := columns.same.shape.symm
  have cpuA' : a'.CpuFloat32 :=
    ⟨rows.same.isCuda.symm.trans cpuA.1, rows.same.isFloat32.symm.trans cpuA.2⟩
  have cpuB' : b'.CpuFloat32 :=
    ⟨columns.same.isCuda.symm.trans cpuB.1, columns.same.isFloat32.symm.trans cpuB.2⟩
  apply (matmulPatch_cells (kernels memory) cpuA cpuB positiveA positiveB multiplies served last few
    frames).mono
  intro c cells
  rw [← shapeA] at positiveA multiplies served few
  rw [← shapeB] at positiveB multiplies served last
  apply (matmulPatch_cells (kernels memory') cpuA' cpuB' positiveA positiveB multiplies served last
    few frames).mono
  intro c' cells'
  exact cells_times host rows columns cells cells'

end Patched

section Sample

def growingRows : TorchTensor ℚ :=
  batchedRows.holding
    { shape := batchedRows.shape
      entry := fun index => batchedRows.entry index * 2 ^ (index.dropLast.getD 1 0 : Int) }

def shrinkingColumns : TorchTensor ℚ :=
  sharedColumns.holding
    { shape := sharedColumns.shape
      entry := fun index => sharedColumns.entry index * 2 ^ (-index.getLastD 0 : Int) }

theorem patched_product_scales_sample :
    (matmulPatch limitedSettings (npuBackends (exact default) (fun _ => saturatingBackend)
        ⟨fun _ => default, fun _ => default⟩ fun _ _ _ => none) 3 batchedRows sharedColumns none
        none).Returns fun c =>
      (matmulPatch limitedSettings (npuBackends (exact default) (fun _ => saturatingBackend)
        ⟨fun _ => default, fun _ => default⟩ fun _ _ _ => none) 3 growingRows shrinkingColumns none
        none).Returns fun c' =>
          ProductTimes 4 3 batchedRows sharedColumns (fun index => index.getD 1 0)
            (fun _ column => -column.getLastD 0) c c' [2] := by
  have rows : RowsTimes batchedRows growingRows fun index => index.getD 1 0 := by
    refine ⟨⟨rfl, rfl, rfl⟩, fun index x => ?_⟩
    simp [growingRows, TorchTensor.holding]
  have columns : ColumnsTimes sharedColumns shrinkingColumns
      fun _ column => -column.getLastD 0 := by
    refine ⟨⟨rfl, rfl, rfl⟩, fun index x column inside => ?_⟩
    obtain ⟨j, rfl⟩ := List.length_eq_one_iff.mp inside.length_eq
    simp [shrinkingColumns, TorchTensor.holding, List.getLastD_eq_getLast?]
  have positiveA : PositiveDims batchedRows.shape := by decide
  have positiveB : PositiveDims sharedColumns.shape := by decide
  have served : LeftToKernels batchedRows.shape sharedColumns.shape := by
    simp [LeftToKernels, batchedRows, sharedColumns]
  have multiplies : Multipliable batchedRows.shape sharedColumns.shape 3 [2] := ⟨rfl, rfl, rfl⟩
  have cuts : limitedSettings.CutsInner (padded 3) := ⟨by decide, by decide, rfl, rfl, rfl⟩
  exact patched_product_scales default _ _ _ rows columns ⟨rfl, rfl⟩ ⟨rfl, rfl⟩ positiveA positiveB
    multiplies served rfl (by decide) (by decide : 2 ≤ 1024) cuts (saturatingBackend_rowwise _) 0

end Sample

end NpuMatmul
