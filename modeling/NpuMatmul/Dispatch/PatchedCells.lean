import NpuMatmul.Dispatch.BatchedMatmul
import NpuMatmul.Pipeline.Locality

set_option autoImplicit false

namespace NpuMatmul

open NdArray RowMajor

section Cells

variable {R : Type} [Zero R]

def zeroExtended (inner : Nat) (line : Nat → R) (x : Nat) : R := if x < inner then line x else 0

-- Every entry is one function of its own row and its own column.
structure IsCells (cell : (Nat → R) → (Nat → R) → R) (a b c : NdArray R) (inner : Nat)
    (batch : List Nat) : Prop where
  shape : c.shape = batch ++ rowDims a.shape ++ columnDims b.shape
  entry : ∀ index row column, Inside batch index → Inside (rowDims a.shape) row →
    Inside (columnDims b.shape) column →
      c.entry (index ++ row ++ column) =
        cell (zeroExtended inner fun x => a.entry (project (leading a.shape) index ++ row ++ [x]))
          (zeroExtended inner fun x => b.entry (project (leading b.shape) index ++ x :: column))

theorem isCells_matrices {cell : (Nat → R) → (Nat → R) → R} {a b c : NdArray R} {m k n : Nat}
    (left : a.shape = [m, k]) (right : b.shape = [k, n]) :
    IsCells cell a b c k [] ↔ c.shape = [m, n] ∧ ∀ row < m, ∀ column < n,
      c.entry [row, column] = cell (zeroExtended k fun x => a.entry [row, x])
        (zeroExtended k fun x => b.entry [x, column]) := by
  have rows : rowDims a.shape = [m] := by simp [left, rowDims, lastTwo]
  have columns : columnDims b.shape = [n] := by simp [right, columnDims, lastTwo]
  have leadA : leading a.shape = [] := by simp [left, leading]
  have leadB : leading b.shape = [] := by simp [right, leading]
  constructor
  · rintro ⟨shape, entry⟩
    rw [rows, columns] at shape entry
    refine ⟨shape, fun row rowBelow column columnBelow => ?_⟩
    have own := entry [] [row] [column] .nil (.cons rowBelow .nil) (.cons columnBelow .nil)
    simpa [leadA, leadB, project] using own
  · rintro ⟨shape, entry⟩
    refine ⟨by simp [rows, columns, shape], ?_⟩
    intro index row column inside insideRow insideColumn
    rw [rows] at insideRow
    rw [columns] at insideColumn
    cases inside
    obtain ⟨r, rfl⟩ := List.length_eq_one_iff.mp insideRow.length_eq
    obtain ⟨j, rfl⟩ := List.length_eq_one_iff.mp insideColumn.length_eq
    have own := entry r (inside_cons.mp insideRow).1 j (inside_cons.mp insideColumn).1
    simpa [leadA, leadB, project] using own

-- What forward does with at most tall rows and these padded dimensions: it calls a kernel that
-- computes each cell from the first entries of its row and its column.
structure CellKernels (settings : Settings) (backends : Backends R) (backendChoice : Int)
    (tall inner columns : Nat) (cell : (Nat → R) → (Nat → R) → R) : Prop where
  call : ∀ (m : Nat) (a b : NdArray R), 0 < m → m ≤ tall →
    a.shape = [padded m, inner] → b.shape = [inner, columns] →
      (forward settings backends backendChoice a b).Returns fun c =>
        c.shape = [padded m, columns] ∧ ∀ row < padded m, ∀ column < columns,
          c.entry [row, column] = cell (fun x => a.entry [row, x]) fun x => b.entry [x, column]
  congr : ∀ row row' column column' : Nat → R, (∀ x < inner, row x = row' x) →
    (∀ x < inner, column x = column' x) → cell row column = cell row' column'

section Matrices

variable {settings : Settings} {backends : Backends R} {tall m k n : Nat}
  {cell : (Nat → R) → (Nat → R) → R} {a b : TorchTensor R}

theorem PaddedBy.row {a p : NdArray R} (padA : PaddedBy m k a p) {row : Nat} (below : row < m) :
    (fun x => p.entry [row, x]) = zeroExtended k fun x => a.entry [row, x] := by
  funext x
  rw [padA.entry, zeroExtended]
  simp [below]

theorem PaddedBy.column {b q : NdArray R} (padB : PaddedBy k n b q) {column : Nat}
    (below : column < n) :
    (fun x => q.entry [x, column]) = zeroExtended k fun x => b.entry [x, column] := by
  funext x
  rw [padB.entry, zeroExtended]
  simp [below]

theorem matrices_cells (backendChoice : Option Int)
    (kernels : CellKernels settings backends (chosen settings backendChoice) tall (padded k)
      (padded n) cell)
    (cpuA : a.CpuFloat32) (cpuB : b.CpuFloat32) (left : a.shape = [m, k]) (right : b.shape = [k, n])
    (rows : 0 < m) (few : m ≤ tall) (frames : Nat) :
    (matmulPatch settings backends (frames + 2) a b none backendChoice).Returns
      (IsCells cell a.toNdArray b.toNdArray · k []) := by
  by_cases aligned : Aligned m k n
  · obtain ⟨evenRows, evenInner, evenColumns⟩ := aligned
    rw [matmulPatch_aligned cpuA cpuB left right _ _ ⟨evenRows, evenInner, evenColumns⟩]
    rw [evenInner, evenColumns] at kernels
    apply (kernels.call m a.toNdArray b.toNdArray rows few (by rw [left, evenRows]) right).mono
    rintro c ⟨shape, entry⟩
    rw [evenRows] at shape entry
    refine (isCells_matrices left right).mpr ⟨shape, fun row rowBelow column columnBelow => ?_⟩
    rw [entry row rowBelow column columnBelow]
    apply kernels.congr <;> intro x below <;> rw [zeroExtended, if_pos below]
  · obtain ⟨p, q, padA, shapeQ, padB, same⟩ :=
      matmulPatch_padded cpuA cpuB left right frames backendChoice aligned (.inl rfl)
    rw [same]
    apply (kernels.call m p q rows few padA.shape shapeQ).bind
    rintro c ⟨shape, entry⟩
    refine .pure ((isCells_matrices left right).mpr ⟨by simp [crop, shape, le_padded], ?_⟩)
    intro row rowBelow column columnBelow
    rw [← padA.row rowBelow, ← (padB rfl).column columnBelow]
    exact entry row (rowBelow.trans_le (le_padded m)) column (columnBelow.trans_le (le_padded n))

end Matrices

section Ranks

variable {settings : Settings} {backends : Backends R} {tall m k n inner : Nat}
  {cell : (Nat → R) → (Nat → R) → R} {a b : TorchTensor R} {lead leadB batch : List Nat}
  {backendChoice : Option Int}

theorem rowVector_cells {a b c d : NdArray R} (left : a.shape = [k]) (right : b.shape = [k, n])
    (unsqueezed : d = a.unsqueeze 0) (cells : IsCells cell d b c k []) :
    IsCells cell a b (c.squeeze 0) k [] := by
  have shapeD : d.shape = [1, k] := by simp [unsqueezed, unsqueeze, left]
  obtain ⟨shape, entry⟩ := (isCells_matrices shapeD right).mp cells
  have squeezed : c.squeeze 0 = { shape := [n], entry := fun index => c.entry (0 :: index) } := by
    simp [squeeze, shape]
  rw [squeezed]
  refine ⟨by simp [left, right, rowDims, columnDims, lastTwo], ?_⟩
  intro index row column inside insideRow insideColumn
  simp only [left, right, rowDims, columnDims, lastTwo] at insideRow insideColumn
  cases inside
  cases insideRow
  obtain ⟨j, rfl⟩ := List.length_eq_one_iff.mp insideColumn.length_eq
  have own := entry 0 Nat.one_pos j (inside_cons.mp insideColumn).1
  simpa [left, right, leading, project, unsqueezed, unsqueeze] using own

theorem zeroExtended_congr {line other : Nat → R} (same : ∀ x < inner, line x = other x) :
    zeroExtended inner line = zeroExtended inner other := by
  funext x
  unfold zeroExtended
  split
  case isTrue below => exact same x below
  case isFalse => rfl

theorem rows_cells {a b f c : NdArray R} (left : a.shape = lead ++ [m, k])
    (right : b.shape = [k, n]) (shapeF : f.shape = [(lead ++ [m]).prod, k])
    (entryF : ∀ i rest, i < (lead ++ [m]).prod → Inside [k] rest →
      f.entry (i :: rest) = a.entry (unravel (lead ++ [m]) i ++ rest))
    (cells : IsCells cell f b c k []) :
    ∃ d, c.reshape ((lead ++ [m]) ++ [n]) = some d ∧ IsCells cell a b d k lead := by
  obtain ⟨shape, entry⟩ := (isCells_matrices shapeF right).mp cells
  obtain ⟨d, reshaped, shapeD, entryD⟩ := reshape_entry shape
  refine ⟨d, reshaped, by simp [shapeD, left, right, columnDims, lastTwo], ?_⟩
  intro index row column inside insideRow insideColumn
  rw [left, rowDims_append] at insideRow
  have columns : columnDims b.shape = [n] := by simp [right, columnDims, lastTwo]
  rw [columns] at insideColumn
  obtain ⟨j, rfl⟩ := List.length_eq_one_iff.mp insideColumn.length_eq
  have insideRows := inside.append insideRow
  have position := ravel_lt insideRows
  have rowLine : zeroExtended k (fun x => f.entry [ravel (lead ++ [m]) (index ++ row), x]) =
      zeroExtended k fun x => a.entry (project (leading a.shape) index ++ row ++ [x]) := by
    apply zeroExtended_congr
    intro x below
    rw [entryF _ _ position (.cons below .nil), unravel_ravel insideRows, left, leading_append,
      project_inside inside]
  rw [entryD (index ++ row) [j] insideRows insideColumn,
    entry _ position j (inside_cons.mp insideColumn).1, rowLine]
  simp [right, leading, project]

theorem slices_cells {a b : NdArray R} {results : List (NdArray R)}
    (left : a.shape = lead ++ [m, k]) (right : b.shape = leadB ++ [k, n])
    (length : results.length = batch.prod) (present : 0 < batch.prod)
    (slices : ∀ i < batch.prod, ∃ c, results[i]? = some c ∧ ∃ aSlice bSlice,
      SliceOf lead batch m k a i aSlice ∧ SliceOf leadB batch k n b i bSlice ∧
        IsCells cell aSlice bSlice c k []) :
    ∃ stacked c, stack results = some stacked ∧ stacked.reshape (batch ++ [m, n]) = some c ∧
      IsCells cell a b c k batch := by
  have shapes : ∀ part ∈ results, part.shape = [m, n] := by
    intro part member
    obtain ⟨i, below, found⟩ := List.getElem_of_mem member
    obtain ⟨c, same, aSlice, bSlice, sliceA, sliceB, cells⟩ := slices i (length ▸ below)
    rw [List.getElem?_eq_getElem below, found] at same
    cases same
    exact ((isCells_matrices sliceA.shape sliceB.shape).mp cells).1
  have nonempty : results ≠ [] := by
    rintro rfl
    simp at length
    omega
  obtain ⟨stacked, whole, shapeS, entryS⟩ := stack_entry nonempty shapes
  rw [length] at shapeS
  obtain ⟨c, reshaped, shapeC, entryC⟩ := reshape_entry shapeS
  refine ⟨stacked, c, whole, reshaped, by simp [shapeC, left, right], ?_⟩
  intro index row column inside insideRow insideColumn
  rw [left, rowDims_append] at insideRow
  rw [right, columnDims_append] at insideColumn
  obtain ⟨r, rfl⟩ := List.length_eq_one_iff.mp insideRow.length_eq
  obtain ⟨j, rfl⟩ := List.length_eq_one_iff.mp insideColumn.length_eq
  have rowBelow := (inside_cons.mp insideRow).1
  have columnBelow := (inside_cons.mp insideColumn).1
  obtain ⟨part, found, aSlice, bSlice, sliceA, sliceB, cells⟩ := slices _ (ravel_lt inside)
  have entry := ((isCells_matrices sliceA.shape sliceB.shape).mp cells).2 r rowBelow j columnBelow
  have rowLine : zeroExtended k (fun x => aSlice.entry [r, x]) =
      zeroExtended k fun x => a.entry (project (leading a.shape) index ++ [r] ++ [x]) := by
    apply zeroExtended_congr
    intro x below
    rw [sliceA.entry r rowBelow x below, unravel_ravel inside, left, leading_append,
      List.append_assoc]
    rfl
  have columnLine : zeroExtended k (fun x => bSlice.entry [x, j]) =
      zeroExtended k fun x => b.entry (project (leading b.shape) index ++ [x, j]) := by
    apply zeroExtended_congr
    intro x below
    rw [sliceB.entry x below j columnBelow, unravel_ravel inside, right, leading_append]
  rw [List.append_assoc, entryC index ([r] ++ [j]) inside (insideRow.append insideColumn)]
  rw [rowLine, columnLine] at entry
  exact (entryS _ _ part found).trans entry

theorem prod_positive (positive : PositiveDims lead) : 0 < lead.prod :=
  List.prod_pos_iff_forall_pos_nat.mpr positive

theorem rows_le {size : Nat} (positive : PositiveDims lead) : size ≤ (lead ++ [size]).prod := by
  rw [List.prod_append, List.prod_singleton]
  exact Nat.le_mul_of_pos_left size (prod_positive positive)

section Patch

variable
  (kernels : CellKernels settings backends (chosen settings backendChoice) tall (padded k) (padded n)
    cell)
  (cpuA : a.CpuFloat32) (cpuB : b.CpuFloat32) (frames : Nat)

include kernels cpuA cpuB

theorem patchRowVector_cells (left : a.shape = [k]) (right : b.shape = [k, n])
    (few : 1 ≤ tall) :
    (matmulPatch settings backends (frames + 3) a b none backendChoice).Returns
      (IsCells cell a.toNdArray b.toNdArray · k []) := by
  rw [matmulPatch_rowVector cpuA cpuB _ _ (by simp [left]) (by simp [right])]
  apply (matrices_cells _ kernels (cpuA.holding _) cpuB (shape_unsqueeze_row left) right
    Nat.one_pos few frames).bind
  intro res cells
  exact .pure (rowVector_cells left right rfl cells)

theorem patchRows_cells (several : lead ≠ []) (left : a.shape = lead ++ [m, k])
    (right : b.shape = [k, n]) (positive : PositiveDims (lead ++ [m, k]))
    (few : (lead ++ [m]).prod ≤ tall) :
    (matmulPatch settings backends (frames + 3) a b none backendChoice).Returns
      (IsCells cell a.toNdArray b.toNdArray · k lead) := by
  have rank : 2 < a.shape.length := left ▸ rank_of_several several
  have rows : 0 < (lead ++ [m]).prod := by
    rw [List.append_cons] at positive
    exact prod_positive positive.append.1
  rw [matmulPatch_rows cpuA cpuB _ _ rank (by simp [right])]
  obtain ⟨f, shapeF, entryF, flattened⟩ := matmulRows_flattened
    (nested settings backends (frames + 2) backendChoice) left right (positive k (by simp))
  rw [flattened]
  apply (matrices_cells _ kernels (cpuA.holding f) cpuB shapeF right rows few frames).bind
  intro res cells
  exact .lift (rows_cells left right shapeF entryF cells)

theorem patchSlices_cells (several : leadB ≠ []) (left : a.shape = lead ++ [m, k])
    (right : b.shape = leadB ++ [k, n]) (common : broadcastShapes lead leadB = some batch)
    (positive : PositiveDims (lead ++ [m, k])) (positiveB : PositiveDims (leadB ++ [k, n]))
    (few : m ≤ tall) :
    (matmulPatch settings backends (frames + 3) a b none backendChoice).Returns
      (IsCells cell a.toNdArray b.toNdArray · k batch) := by
  have rank : 2 < b.shape.length := right ▸ rank_of_several several
  have present := positive.append.1.common positiveB.append.1 common
  have rows : 0 < m := positive m (by simp)
  have inner : 0 < k := positive k (by simp)
  have columns : 0 < n := positiveB n (by simp)
  rw [matmulPatch_slices cpuA cpuB _ _ (by omega) (by omega)]
  obtain ⟨step, unfolded, slices⟩ := matmulSlices_each
    (nested settings backends (frames + 2) backendChoice) left right common
    (Nat.mul_pos rows inner) (Nat.mul_pos inner columns)
  have cells : ∀ i < batch.prod, (step i).Returns fun c => ∃ aSlice bSlice,
      SliceOf lead batch m k a.toNdArray i aSlice ∧ SliceOf leadB batch k n b.toNdArray i bSlice ∧
        IsCells cell aSlice bSlice c k [] := by
    intro i below
    obtain ⟨aSlice, bSlice, sliceA, sliceB, same⟩ := slices i below
    have own := matrices_cells (some (chosen settings backendChoice)) kernels
      (cpuA.holding aSlice) (cpuB.holding bSlice) sliceA.shape sliceB.shape rows few frames
    rw [same]
    exact own.mono fun c holds => ⟨aSlice, bSlice, sliceA, sliceB, holds⟩
  apply Traced.Returns.attempt
  rw [unfolded]
  apply (Traced.each_returns cells).bind
  rintro results ⟨length, found⟩
  obtain ⟨stacked, c, whole, reshaped, holds⟩ := slices_cells left right length present found
  rw [whole, Traced.lift_some, Traced.pure_bind]
  exact .lift ⟨c, reshaped, holds⟩

end Patch

def LeftToKernels (shape other : List Nat) : Prop :=
  2 ≤ other.length ∧ (shape.length = 1 → other.length = 2)

theorem matmulPatch_cells
    (kernels : CellKernels settings backends (chosen settings backendChoice) tall (padded inner)
      (padded n) cell)
    (cpuA : a.CpuFloat32) (cpuB : b.CpuFloat32) (positiveA : PositiveDims a.shape)
    (positiveB : PositiveDims b.shape) (multiplies : Multipliable a.shape b.shape inner batch)
    (served : LeftToKernels a.shape b.shape) (last : columnDims b.shape = [n])
    (few : a.shape.dropLast.prod ≤ tall) (frames : Nat) :
    (matmulPatch settings backends (frames + 3) a b none backendChoice).Returns
      (IsCells cell a.toNdArray b.toNdArray · inner batch) := by
  have ranks := ranks_of (innerLeft_nonempty multiplies.left) (innerRight_nonempty multiplies.right)
  generalize left : a.shape = shape at ranks multiplies positiveA served few
  generalize right : b.shape = other at ranks multiplies positiveB served last
  cases ranks with
  | vectors k l => simp [LeftToKernels] at served
  | columnVector m k l => simp [LeftToKernels] at served
  | slicesVector several m k l => simp [LeftToKernels] at served
  | vectorSlices k several l n =>
      have matrix := served.2 rfl
      exact absurd matrix (rank_of_several several).ne'
  | rowVector k l n =>
      cases multiplies.left
      cases multiplies.right
      cases multiplies.batch
      cases last
      exact patchRowVector_cells kernels cpuA cpuB frames left right few
  | matrices m k l n =>
      cases multiplies.left
      cases multiplies.right
      cases multiplies.batch
      cases last
      have own : m ≤ tall := by simpa using few
      exact matrices_cells _ kernels cpuA cpuB left right (positiveA m (by simp)) own (frames + 1)
  | @rows lead several m k l n =>
      have whole : Multipliable (lead ++ [m, k]) ([] ++ [l, n]) inner batch := multiplies
      obtain ⟨rfl, rfl, common⟩ := whole.matrices
      have alone : lead = batch := by simpa using common
      subst alone
      cases last
      exact patchRows_cells kernels cpuA cpuB frames several left right positiveA
        (by simpa [List.dropLast_append_of_ne_nil] using few)
  | @slices lead leadB several m k l n =>
      obtain ⟨rfl, rfl, common⟩ := multiplies.matrices
      rw [columnDims_append] at last
      cases last
      have own : m ≤ tall := by
        apply le_trans (rows_le positiveA.append.1)
        simpa [List.dropLast_append_of_ne_nil] using few
      exact patchSlices_cells kernels cpuA cpuB frames several left right common
        positiveA positiveB own

end Ranks

end Cells

section Npu

variable {F : Type} (fp : FloatArith F)

def dataPtr (a : NdArray F) (columns i : Nat) : F := a.entry [i / columns, i % columns]

def fromDataPtr (m n : Nat) (C : Nat → F) : NdArray F :=
  { shape := [m, n], entry := fun index => C (ravel [m, n] index) }

-- The splits as matmul_tiled gets them; those it cannot divide by, or that leave no block, are not
-- modelled.
def PySplits.cut (splits : PySplits) : Option Splits :=
  if 0 < splits.m ∧ 0 < splits.k ∧ 0 < splits.n then
    some { m := splits.m.toNat, k := splits.k.toNat, n := splits.n.toNat }
  else none

structure NpuMemory (F : Type) where
  tiled : ExtensionCall F → TiledMemory F
  int8 : ExtensionCall F → Int8Memory F

-- matmul_npu and matmul_tiled_npu, on an engine whose graphs are valid and execute.
def npuKernel [Zero F] (backend : Int → Backend) (memory : NpuMemory F) (call : ExtensionCall F) :
    Option (NdArray F) :=
  match call.a.shape, call.b.shape with
  | [m, k], [_, n] =>
      let a := dataPtr call.a k
      let b := dataPtr call.b n
      let npu := backend call.backendChoice
      match call.kernel with
      | .matmul =>
          some (fromDataPtr m n (matmulInt8 fp npu (memory.int8 call) a b (fun _ => 0) m k n))
      | .matmulTiled splits =>
          splits.cut.map fun splits =>
            fromDataPtr m n (matmulTiled fp npu (memory.tiled call) a b (fun _ => 0) m k n splits)
  | _, _ => none

def npuBackends [Zero F] (backend : Int → Backend) (memory : NpuMemory F)
    (matmulOriginal : TorchTensor F → TorchTensor F → Option (NdArray F) → Option (NdArray F)) :
    Backends F :=
  { kernel := npuKernel fp backend memory, matmulOriginal := matmulOriginal }

structure Settings.CutsInner (settings : Settings) (K : Nat) : Prop where
  positive : 0 < settings.kLimit
  exceeded : settings.kLimit < K
  unset : settings.globalMSplit = none ∧ settings.globalKSplit = none ∧
    settings.globalNSplit = none

variable {settings : Settings} {m K N : Nat}

theorem defaultSplit_one {size : Nat} (positive : 0 < size) (few : size ≤ 1024) :
    Settings.defaultSplit size = 1 := by
  have quotient : Int.fdiv ((size : Int) + 1023) 1024 = 1 := by
    rw [Int.fdiv_eq_ediv_of_nonneg _ (by decide)]
    omega
  rw [Settings.defaultSplit, quotient]
  rfl

theorem defaultKSplit_positive (settings : Settings) (K : Nat) :
    0 < settings.defaultKSplit K := by
  unfold Settings.defaultKSplit
  split <;> omega

theorem select_cuts (cuts : settings.CutsInner K) (rows : 0 < m) (few : m ≤ 1024)
    (columns : 0 < N) (narrow : N ≤ 1024) :
    settings.select m K N =
      some (.matmulTiled { m := 1, k := settings.defaultKSplit K, n := 1 }) := by
  have tiled : settings.tiled m K N = true := by
    simp [Settings.tiled, cuts.positive, cuts.exceeded]
  have splits : settings.splits m K N = { m := 1, k := settings.defaultKSplit K, n := 1 } := by
    simp [Settings.splits, cuts.unset.1, cuts.unset.2.1, cuts.unset.2.2,
      defaultSplit_one rows few, defaultSplit_one columns narrow]
  have divides := (defaultKSplit_positive settings K).ne'
  simp [Settings.select, tiled, splits, PySplits.hasZero, divides]

theorem dataPtr_entry (a : NdArray F) {row x columns : Nat} (below : x < columns) :
    dataPtr a columns (row * columns + x) = a.entry [row, x] := by
  rw [dataPtr, Loop.rowMajor_div row below, Loop.rowMajor_mod row below]

variable [Zero F] {backend : Int → Backend} {backendChoice : Int}
  {cell : List Nat → List Nat → BitVec 16}

theorem npuKernel_cells (memory : NpuMemory F)
    (matmulOriginal : TorchTensor F → TorchTensor F → Option (NdArray F) → Option (NdArray F))
    (cuts : settings.CutsInner K) (columns : 0 < N) (narrow : N ≤ 1024)
    (rowwise : Rowwise (backend backendChoice) (K / (settings.defaultKSplit K).toNat) cell) :
    CellKernels settings (npuBackends fp backend memory matmulOriginal) backendChoice 1024 K N
      (lineCell fp K (settings.defaultKSplit K).toNat cell) := by
  have inner : 0 < K := by
    have limit := cuts.positive
    have exceeded := cuts.exceeded
    omega
  constructor
  · intro m a b rows few left right
    have height : 0 < padded m := rows.trans_le (le_padded m)
    have low : padded m ≤ 1024 := by
      unfold padded
      omega
    have positive := defaultKSplit_positive settings K
    rw [forward_called left right (select_cuts cuts height low columns narrow)]
    refine ⟨_, by simp [npuBackends, npuKernel, left, right, PySplits.cut, positive]; rfl, rfl, ?_⟩
    intro row below column inside
    change matmulTiled fp _ _ _ _ _ _ _ _ _ (ravel [padded m, N] [row, column]) = _
    have position : ravel [padded m, N] [row, column] = row * N + column := by
      simp [ravel]
    rw [position, tiled_cell_local fp _ _ _ _ inner rowwise below inside]
    apply lineCell_congr
    · intro x within
      exact dataPtr_entry a within
    · intro x within
      exact dataPtr_entry b inside
  · intro row row' column column' rows columns
    exact lineCell_congr fp _ _ rows columns

theorem padded_le {size : Nat} (few : size ≤ 1024) : padded size ≤ 1024 := by
  unfold padded
  omega

-- Under K_LIMIT the patched torch.matmul, down to the codes and the answers of the NPU, gives for
-- every entry the cell of its own zero-padded row and column: neither the other rows, columns and
-- batches nor what the memory held before change it, whichever way the ranks are brought to
-- matrices.
theorem patched_tiled_cells (memory : NpuMemory F)
    (matmulOriginal : TorchTensor F → TorchTensor F → Option (NdArray F) → Option (NdArray F))
    {a b : TorchTensor F} {inner n : Nat} {batch : List Nat} {backendChoice : Option Int}
    (cpuA : a.CpuFloat32) (cpuB : b.CpuFloat32) (positiveA : PositiveDims a.shape)
    (positiveB : PositiveDims b.shape) (multiplies : Multipliable a.shape b.shape inner batch)
    (served : LeftToKernels a.shape b.shape) (last : columnDims b.shape = [n])
    (few : a.shape.dropLast.prod ≤ 1024) (narrow : n ≤ 1024)
    (cuts : settings.CutsInner (padded inner))
    (rowwise : Rowwise (backend (chosen settings backendChoice))
      (padded inner / (settings.defaultKSplit (padded inner)).toNat) cell) (frames : Nat) :
    (matmulPatch settings (npuBackends fp backend memory matmulOriginal) (frames + 3) a b none
        backendChoice).Returns
      (IsCells
        (lineCell fp (padded inner) (settings.defaultKSplit (padded inner)).toNat cell)
        a.toNdArray b.toNdArray · inner batch) := by
  have columns : 0 < n := by
    have member : n ∈ columnDims b.shape := by simp [last]
    exact positiveB n (List.mem_of_mem_drop (List.mem_of_mem_tail member))
  have kernels := npuKernel_cells fp memory matmulOriginal cuts
    (columns.trans_le (le_padded n)) (padded_le narrow) rowwise
  exact matmulPatch_cells kernels cpuA cpuB positiveA positiveB multiplies served last few frames

end Npu

section Sample

def limitedSettings : Settings :=
  { kLimit := 2, globalMSplit := none, globalKSplit := none, globalNSplit := none,
    defaultBackendChoice := 1, verbose := false }

def batchedRows : TorchTensor ℚ :=
  { shape := [2, 3, 3], entry := fun index => index.foldl (fun sum i => sum + i) 1
    isCuda := false, isFloat32 := true }

def sharedColumns : TorchTensor ℚ :=
  { shape := [3, 2], entry := fun _ => -1, isCuda := false, isFloat32 := true }

theorem patched_tiled_cells_sample :
    (matmulPatch limitedSettings
        (npuBackends (exact default) (fun _ => saturatingBackend) ⟨fun _ => default, fun _ => default⟩
          fun _ _ _ => none) 3 batchedRows sharedColumns none none).Returns
      (IsCells (lineCell (exact default) 4 2 saturatingCell)
        batchedRows.toNdArray sharedColumns.toNdArray · 3 [2]) := by
  have positiveA : PositiveDims batchedRows.shape := by decide
  have positiveB : PositiveDims sharedColumns.shape := by decide
  have served : LeftToKernels batchedRows.shape sharedColumns.shape := by
    simp [LeftToKernels, batchedRows, sharedColumns]
  have multiplies : Multipliable batchedRows.shape sharedColumns.shape 3 [2] := ⟨rfl, rfl, rfl⟩
  have cuts : limitedSettings.CutsInner (padded 3) := ⟨by decide, by decide, rfl, rfl, rfl⟩
  exact patched_tiled_cells (exact default) _ _ ⟨rfl, rfl⟩ ⟨rfl, rfl⟩ positiveA positiveB multiplies
    served rfl (by decide) (by decide : 2 ≤ 1024) cuts (saturatingBackend_rowwise _) 0

end Sample

end NpuMatmul
