import Mathlib.Algebra.BigOperators.Ring.Finset
import NpuMatmul.Dispatch.PatchSpec
import NpuMatmul.Shared.BatchedProduct

set_option autoImplicit false

namespace NpuMatmul

open NdArray RowMajor

variable {R : Type} [NonUnitalNonAssocSemiring R]

abbrev PositiveDims (shape : List Nat) : Prop := ∀ size ∈ shape, 0 < size

-- The kernels compute the product of two matrices, and torch._matmul_original that of any two
-- arrays that multiply. The tiled kernel divides by its splits.
structure ExactBackends (backends : Backends R) : Prop where
  kernel : ∀ (call : ExtensionCall R) (m k n : Nat), call.a.shape = [m, k] → call.b.shape = [k, n] →
    0 < m → 0 < k → 0 < n →
    (∀ splits, call.kernel = .matmulTiled splits → splits.hasZero = false) →
      ∃ c, backends.kernel call = some c ∧ IsProduct call.a call.b c k []
  matmulOriginal : ∀ (a b : TorchTensor R) (inner : Nat) (batch : List Nat),
    Multipliable a.shape b.shape inner batch → PositiveDims a.shape → PositiveDims b.shape →
      ∃ c, backends.matmulOriginal a b none = some c ∧
        IsProduct a.toNdArray b.toNdArray c inner batch

def Settings.NonzeroSplits (settings : Settings) : Prop :=
  settings.globalMSplit ≠ some 0 ∧ settings.globalKSplit ≠ some 0 ∧ settings.globalNSplit ≠ some 0

theorem splits_nonzero {settings : Settings} (nonzero : settings.NonzeroSplits) (m k n : Nat) :
    (settings.splits m k n).hasZero = false := by
  have override {split : Option Int} {default : Int} (given : split ≠ some 0)
      (positive : default ≠ 0) : split.getD default ≠ 0 := by
    cases split with
    | none => exact positive
    | some value => simpa using given
  have size (dim : Nat) : Settings.defaultSplit dim ≠ 0 := by
    unfold Settings.defaultSplit
    omega
  have inner : settings.defaultKSplit k ≠ 0 := by
    unfold Settings.defaultKSplit
    split <;> omega
  simp [PySplits.hasZero, Settings.splits, override nonzero.1 (size m),
    override nonzero.2.1 inner, override nonzero.2.2 (size n)]

theorem select_nonzero {settings : Settings} (nonzero : settings.NonzeroSplits) (m k n : Nat) :
    ∃ kernel, settings.select m k n = some kernel ∧
      ∀ splits, kernel = .matmulTiled splits → splits.hasZero = false := by
  have divisors := splits_nonzero nonzero m k n
  unfold Settings.select
  split
  · refine ⟨.matmulTiled (settings.splits m k n), by simp [divisors], ?_⟩
    rintro splits ⟨⟩
    exact divisors
  · exact ⟨.matmul, rfl, nofun⟩

section Matrices

variable {settings : Settings} {backends : Backends R} {a b : TorchTensor R} {m k n : Nat}

theorem forward_product (exact : ExactBackends backends) (nonzero : settings.NonzeroSplits)
    (backendChoice : Int) {a b : NdArray R} (left : a.shape = [m, k]) (right : b.shape = [k, n])
    (rows : 0 < m) (inner : 0 < k) (columns : 0 < n) :
    (forward settings backends backendChoice a b).Returns (IsProduct a b · k []) := by
  obtain ⟨kernel, selected, divisors⟩ := select_nonzero nonzero m k n
  rw [forward_called left right selected]
  exact exact.kernel ⟨kernel, a, b, backendChoice⟩ m k n left right rows inner columns divisors

theorem cropped_product {a b p q c : NdArray R} (left : a.shape = [m, k]) (right : b.shape = [k, n])
    (padA : PaddedBy m k a p) (padB : PaddedBy k n b q)
    (product : IsProduct p q c (padded k) []) : IsProduct a b (c.crop [m, n]) k [] := by
  obtain ⟨shape, entry⟩ := (isProduct_matrices padA.shape padB.shape).mp product
  refine (isProduct_matrices left right).mpr ⟨by simp [crop, shape, le_padded], ?_⟩
  intro row rowBelow column columnBelow
  have beyond : ∀ x ∈ Finset.range (padded k), x ∉ Finset.range k →
      p.entry [row, x] * q.entry [x, column] = 0 := by
    intro x _ outside
    have absent : ¬ (row < m ∧ x < k) := fun inside => outside (Finset.mem_range.mpr inside.2)
    rw [padA.entry, if_neg absent, zero_mul]
  calc (c.crop [m, n]).entry [row, column]
      = ∑ x ∈ Finset.range (padded k), p.entry [row, x] * q.entry [x, column] :=
        entry row (rowBelow.trans_le (le_padded m)) column (columnBelow.trans_le (le_padded n))
    _ = ∑ x ∈ Finset.range k, p.entry [row, x] * q.entry [x, column] :=
        (Finset.sum_subset (Finset.range_subset_range.mpr (le_padded k)) beyond).symm
    _ = ∑ x ∈ Finset.range k, a.entry [row, x] * b.entry [x, column] := by
        apply Finset.sum_congr rfl
        intro x inside
        have below := Finset.mem_range.mp inside
        rw [padA.entry, padB.entry, if_pos ⟨rowBelow, below⟩, if_pos ⟨below, columnBelow⟩]

theorem matrices_product (exact : ExactBackends backends) (nonzero : settings.NonzeroSplits)
    (cpuA : a.CpuFloat32) (cpuB : b.CpuFloat32) (left : a.shape = [m, k]) (right : b.shape = [k, n])
    (rows : 0 < m) (inner : 0 < k) (columns : 0 < n) (frames : Nat) (backendChoice : Option Int) :
    (matmulPatch settings backends (frames + 2) a b none backendChoice).Returns
      (IsProduct a.toNdArray b.toNdArray · k []) := by
  by_cases aligned : Aligned m k n
  · rw [matmulPatch_aligned cpuA cpuB left right _ _ aligned]
    exact forward_product exact nonzero _ left right rows inner columns
  · obtain ⟨p, q, padA, shapeQ, padB, same⟩ :=
      matmulPatch_padded cpuA cpuB left right frames backendChoice aligned (.inl rfl)
    rw [same]
    apply (forward_product exact nonzero _ padA.shape shapeQ (rows.trans_le (le_padded m))
      (inner.trans_le (le_padded k)) (columns.trans_le (le_padded n))).bind
    intro res product
    exact .pure (cropped_product left right padA (padB rfl) product)

end Matrices

section Ranks

variable {settings : Settings} {backends : Backends R} {a b : TorchTensor R} {m k l n inner : Nat}
  {lead leadB batch : List Nat}

theorem rowVector_product {a b c d : NdArray R} (left : a.shape = [k]) (right : b.shape = [k, n])
    (unsqueezed : d = a.unsqueeze 0) (product : IsProduct d b c k []) :
    IsProduct a b (c.squeeze 0) k [] := by
  have shapeD : d.shape = [1, k] := by simp [unsqueezed, unsqueeze, left]
  obtain ⟨shape, entry⟩ := (isProduct_matrices shapeD right).mp product
  have squeezed : c.squeeze 0 = { shape := [n], entry := fun index => c.entry (0 :: index) } := by
    simp [squeeze, shape]
  rw [squeezed]
  refine ⟨by simp [left, right, rowDims, columnDims, lastTwo], ?_⟩
  intro index row column inside insideRow insideColumn
  simp only [left, right, rowDims, columnDims, lastTwo] at insideRow insideColumn
  cases inside
  cases insideRow
  obtain ⟨j, rfl⟩ := List.length_eq_one_iff.mp insideColumn.length_eq
  have own := entry 0 Nat.one_pos j (inside_cons.mp insideColumn).1
  simpa [left, right, leading, project, unsqueezed, unsqueeze] using own

theorem rows_product {a b f c : NdArray R} (left : a.shape = lead ++ [m, k])
    (right : b.shape = [k, n]) (shapeF : f.shape = [(lead ++ [m]).prod, k])
    (entryF : ∀ i rest, i < (lead ++ [m]).prod → Inside [k] rest →
      f.entry (i :: rest) = a.entry (unravel (lead ++ [m]) i ++ rest))
    (product : IsProduct f b c k []) :
    ∃ d, c.reshape ((lead ++ [m]) ++ [n]) = some d ∧ IsProduct a b d k lead := by
  obtain ⟨shape, entry⟩ := (isProduct_matrices shapeF right).mp product
  obtain ⟨d, reshaped, shapeD, entryD⟩ := reshape_entry shape
  refine ⟨d, reshaped, by simp [shapeD, left, right, columnDims, lastTwo], ?_⟩
  intro index row column inside insideRow insideColumn
  rw [left, rowDims_append] at insideRow
  have columns : columnDims b.shape = [n] := by simp [right, columnDims, lastTwo]
  rw [columns] at insideColumn
  obtain ⟨j, rfl⟩ := List.length_eq_one_iff.mp insideColumn.length_eq
  have insideRows := inside.append insideRow
  have position := ravel_lt insideRows
  rw [entryD (index ++ row) [j] insideRows insideColumn,
    entry _ position j (inside_cons.mp insideColumn).1]
  apply Finset.sum_congr rfl
  intro x below
  have insideX : Inside [k] [x] := .cons (Finset.mem_range.mp below) .nil
  rw [entryF _ _ position insideX, unravel_ravel insideRows, left, leading_append,
    project_inside inside]
  simp [right, leading, project]

theorem matmulRows_product (exact : ExactBackends backends) (nonzero : settings.NonzeroSplits)
    (cpuA : a.CpuFloat32) (cpuB : b.CpuFloat32) (left : a.shape = lead ++ [m, k])
    (right : b.shape = [k, n]) (rows : 0 < (lead ++ [m]).prod) (inner : 0 < k) (columns : 0 < n)
    (frames : Nat) (backendChoice : Option Int) :
    (matmulRows (nested settings backends (frames + 2) backendChoice) a b).Returns
      (IsProduct a.toNdArray b.toNdArray · k lead) := by
  obtain ⟨f, shapeF, entryF, flattened⟩ := matmulRows_flattened
    (nested settings backends (frames + 2) backendChoice) left right inner
  rw [flattened]
  apply (matrices_product exact nonzero (cpuA.holding f) cpuB shapeF right rows inner columns
    frames _).bind
  intro res product
  exact .lift (rows_product left right shapeF entryF product)

theorem slices_product {a b : NdArray R} {results : List (NdArray R)}
    (left : a.shape = lead ++ [m, k]) (right : b.shape = leadB ++ [k, n])
    (length : results.length = batch.prod) (present : 0 < batch.prod)
    (products : ∀ i < batch.prod, ∃ c, results[i]? = some c ∧ ∃ aSlice bSlice,
      SliceOf lead batch m k a i aSlice ∧ SliceOf leadB batch k n b i bSlice ∧
        IsProduct aSlice bSlice c k []) :
    ∃ stacked c, stack results = some stacked ∧ stacked.reshape (batch ++ [m, n]) = some c ∧
      IsProduct a b c k batch := by
  have shapes : ∀ part ∈ results, part.shape = [m, n] := by
    intro part member
    obtain ⟨i, below, found⟩ := List.getElem_of_mem member
    obtain ⟨c, same, aSlice, bSlice, sliceA, sliceB, product⟩ := products i (length ▸ below)
    rw [List.getElem?_eq_getElem below, found] at same
    cases same
    exact ((isProduct_matrices sliceA.shape sliceB.shape).mp product).1
  have nonempty : results ≠ [] := by
    rintro rfl
    simp at length
    omega
  obtain ⟨stacked, whole, shapeS, entryS⟩ := stack_entry nonempty shapes
  rw [length] at shapeS
  obtain ⟨c, reshaped, shapeC, entryC⟩ := reshape_entry shapeS
  refine ⟨stacked, c, whole, reshaped, by simp [shapeC, left, right], ?_⟩
  intro index row column inside insideRow insideColumn
  rw [left, rowDims_append] at insideRow
  rw [right, columnDims_append] at insideColumn
  obtain ⟨r, rfl⟩ := List.length_eq_one_iff.mp insideRow.length_eq
  obtain ⟨j, rfl⟩ := List.length_eq_one_iff.mp insideColumn.length_eq
  have rowBelow := (inside_cons.mp insideRow).1
  have columnBelow := (inside_cons.mp insideColumn).1
  obtain ⟨part, found, aSlice, bSlice, sliceA, sliceB, product⟩ := products _ (ravel_lt inside)
  have entry := ((isProduct_matrices sliceA.shape sliceB.shape).mp product).2 r rowBelow j
    columnBelow
  rw [List.append_assoc, entryC index ([r] ++ [j]) inside (insideRow.append insideColumn),
    entryS _ _ part found]
  refine entry.trans (Finset.sum_congr rfl fun x below => ?_)
  have innerBelow := Finset.mem_range.mp below
  rw [sliceA.entry r rowBelow x innerBelow, sliceB.entry x innerBelow j columnBelow,
    unravel_ravel inside, left, right, leading_append, leading_append, List.append_assoc]
  rfl

theorem matmulSlices_product (exact : ExactBackends backends) (nonzero : settings.NonzeroSplits)
    (cpuA : a.CpuFloat32) (cpuB : b.CpuFloat32) (left : a.shape = lead ++ [m, k])
    (right : b.shape = leadB ++ [k, n]) (common : broadcastShapes lead leadB = some batch)
    (present : 0 < batch.prod) (rows : 0 < m) (inner : 0 < k) (columns : 0 < n) (frames : Nat)
    (backendChoice : Option Int) :
    (matmulSlices (nested settings backends (frames + 2) backendChoice) a b).Returns
      (IsProduct a.toNdArray b.toNdArray · k batch) := by
  obtain ⟨step, unfolded, slices⟩ := matmulSlices_each
    (nested settings backends (frames + 2) backendChoice) left right common
    (Nat.mul_pos rows inner) (Nat.mul_pos inner columns)
  have products : ∀ i < batch.prod, (step i).Returns fun c => ∃ aSlice bSlice,
      SliceOf lead batch m k a.toNdArray i aSlice ∧ SliceOf leadB batch k n b.toNdArray i bSlice ∧
        IsProduct aSlice bSlice c k [] := by
    intro i below
    obtain ⟨aSlice, bSlice, sliceA, sliceB, same⟩ := slices i below
    have product := matrices_product exact nonzero (cpuA.holding aSlice) (cpuB.holding bSlice)
      sliceA.shape sliceB.shape rows inner columns frames (some (chosen settings backendChoice))
    rw [same]
    exact product.mono fun c holds => ⟨aSlice, bSlice, sliceA, sliceB, holds⟩
  rw [unfolded]
  apply (Traced.each_returns products).bind
  rintro results ⟨length, found⟩
  obtain ⟨stacked, c, whole, reshaped, product⟩ := slices_product left right length present found
  rw [whole, Traced.lift_some, Traced.pure_bind]
  exact .lift ⟨c, reshaped, product⟩

theorem PositiveDims.append {shape other : List Nat} (positive : PositiveDims (shape ++ other)) :
    PositiveDims shape ∧ PositiveDims other :=
  List.forall_mem_append.mp positive

theorem PositiveDims.common (positive : PositiveDims lead) (positiveB : PositiveDims leadB)
    (common : broadcastShapes lead leadB = some batch) : 0 < batch.prod := by
  refine List.prod_pos_iff_forall_pos_nat.mpr fun size member => ?_
  exact (mem_common common size member).elim (positive size) (positiveB size)

section Patch

variable (exact : ExactBackends backends) (nonzero : settings.NonzeroSplits)
  (cpuA : a.CpuFloat32) (cpuB : b.CpuFloat32) (frames : Nat) (backendChoice : Option Int)

include exact nonzero cpuA cpuB

theorem patchRowVector_product (left : a.shape = [k]) (right : b.shape = [k, n]) (inner : 0 < k)
    (columns : 0 < n) :
    (matmulPatch settings backends (frames + 3) a b none backendChoice).Returns
      (IsProduct a.toNdArray b.toNdArray · k []) := by
  rw [matmulPatch_rowVector cpuA cpuB _ _ (by simp [left]) (by simp [right])]
  apply (matrices_product exact nonzero (cpuA.holding _) cpuB (shape_unsqueeze_row left) right
    Nat.one_pos inner columns frames _).bind
  intro res product
  exact .pure (rowVector_product left right rfl product)

theorem patchColumnVector_original {P : NdArray R → Prop} (left : a.shape = [m, k])
    (right : b.shape = [k]) (rows : 0 < m) (inner : 0 < k)
    (original : ∃ c, backends.matmulOriginal a b none = some c ∧ P c) :
    (matmulPatch settings backends (frames + 3) a b none backendChoice).Returns P := by
  rw [matmulPatch_column cpuA cpuB _ _ left right]
  apply (matrices_product exact nonzero cpuA (cpuB.holding _) left (shape_unsqueeze_column right)
    rows inner Nat.one_pos frames _).bind
  intro _ _
  exact .lift original

theorem patchRows_product (several : lead ≠ []) (left : a.shape = lead ++ [m, k])
    (right : b.shape = [k, n]) (positive : PositiveDims (lead ++ [m, k])) (columns : 0 < n) :
    (matmulPatch settings backends (frames + 3) a b none backendChoice).Returns
      (IsProduct a.toNdArray b.toNdArray · k lead) := by
  have rank : 2 < a.shape.length := left ▸ rank_of_several several
  have rows : 0 < (lead ++ [m]).prod := by
    refine List.prod_pos_iff_forall_pos_nat.mpr fun size member => positive size ?_
    rw [List.append_cons]
    exact List.mem_append_left _ member
  rw [matmulPatch_rows cpuA cpuB _ _ rank (by simp [right])]
  exact matmulRows_product exact nonzero cpuA cpuB left right rows (positive k (by simp)) columns
    frames backendChoice

theorem patchSlices_product (several : leadB ≠ []) (left : a.shape = lead ++ [m, k])
    (right : b.shape = leadB ++ [k, n]) (common : broadcastShapes lead leadB = some batch)
    (positive : PositiveDims (lead ++ [m, k])) (positiveB : PositiveDims (leadB ++ [k, n])) :
    (matmulPatch settings backends (frames + 3) a b none backendChoice).Returns
      (IsProduct a.toNdArray b.toNdArray · k batch) := by
  have rank : 2 < b.shape.length := right ▸ rank_of_several several
  have present := positive.append.1.common positiveB.append.1 common
  rw [matmulPatch_slices cpuA cpuB _ _ (by omega) (by omega)]
  exact (matmulSlices_product exact nonzero cpuA cpuB left right common present
    (positive m (by simp)) (positive k (by simp)) (positiveB n (by simp)) frames
    backendChoice).attempt

end Patch

end Ranks

-- matmul_patch computes the batched product, for every rank and broadcast.
theorem matmulPatch_batchedProduct {settings : Settings} {backends : Backends R}
    (exact : ExactBackends backends) (nonzero : settings.NonzeroSplits) {a b : TorchTensor R}
    (cpuA : a.CpuFloat32) (cpuB : b.CpuFloat32) (positiveA : PositiveDims a.shape)
    (positiveB : PositiveDims b.shape) {inner : Nat} {batch : List Nat}
    (multiplies : Multipliable a.shape b.shape inner batch) (frames : Nat)
    (backendChoice : Option Int) :
    (matmulPatch settings backends (frames + 3) a b none backendChoice).Returns
      (IsProduct a.toNdArray b.toNdArray · inner batch) := by
  have original := exact.matmulOriginal a b inner batch multiplies positiveA positiveB
  have ranks := ranks_of (innerLeft_nonempty multiplies.left) (innerRight_nonempty multiplies.right)
  generalize left : a.shape = shape at ranks multiplies positiveA
  generalize right : b.shape = other at ranks multiplies positiveB
  cases ranks with
  | rowVector k l n =>
      cases multiplies.left
      cases multiplies.right
      cases multiplies.batch
      exact patchRowVector_product exact nonzero cpuA cpuB frames backendChoice left right
        (positiveA k (by simp)) (positiveB n (by simp))
  | columnVector m k l =>
      cases multiplies.left
      cases multiplies.right
      exact patchColumnVector_original exact nonzero cpuA cpuB frames backendChoice left right
        (positiveA m (by simp)) (positiveA k (by simp)) original
  | matrices m k l n =>
      cases multiplies.left
      cases multiplies.right
      cases multiplies.batch
      exact matrices_product exact nonzero cpuA cpuB left right (positiveA m (by simp))
        (positiveA k (by simp)) (positiveB n (by simp)) (frames + 1) backendChoice
  | @rows lead several m k l n =>
      have whole : Multipliable (lead ++ [m, k]) ([] ++ [l, n]) inner batch := multiplies
      obtain ⟨rfl, rfl, common⟩ := whole.matrices
      have alone : lead = batch := by simpa using common
      subst alone
      exact patchRows_product exact nonzero cpuA cpuB frames backendChoice several left right
        positiveA (positiveB n (by simp))
  | slices lead several m k l n =>
      obtain ⟨rfl, rfl, common⟩ := multiplies.matrices
      exact patchSlices_product exact nonzero cpuA cpuB frames backendChoice several left right
        common positiveA positiveB
  | vectors k l =>
      rw [matmulPatch_vector cpuA cpuB _ _ (by simp [left]) (by simp [right]) (by simp [left])]
      exact .lift original
  | vectorSlices k several l n =>
      rw [matmulPatch_vector cpuA cpuB _ _ (by simp [left]) (by simp [right, several])
        (by simp [left])]
      exact .lift original
  | slicesVector several m k l =>
      rw [matmulPatch_vector cpuA cpuB _ _ (by simp [right]) (by simp [right])
        (by simp [left, several])]
      exact .lift original

section Sample

def multiplyingBackends : Backends Int :=
  { kernel := fun call => multiply call.a call.b
    matmulOriginal := fun a b _ => multiply a.toNdArray b.toNdArray }

theorem multiplyingBackends_exact : ExactBackends multiplyingBackends := by
  constructor
  · intro call m k n left right _ _ _ _
    apply multiply_product
    constructor <;> simp [left, right, innerLeft, innerRight, leading, lastTwo]
  · intro a b inner batch multiplies _ _
    exact multiply_product multiplies

def plainSettings : Settings :=
  { kLimit := 0, globalMSplit := none, globalKSplit := none, globalNSplit := none,
    defaultBackendChoice := 1, verbose := false }

def sampleFactor : TorchTensor Int :=
  { shape := [2, 2, 3], entry := fun index => index.foldl (fun sum i => 10 * sum + i) 1
    isCuda := false, isFloat32 := true }

def sharedFactor : TorchTensor Int :=
  { shape := [1, 3, 2], entry := fun index => index.foldl (fun sum i => 2 * sum - i) 1
    isCuda := false, isFloat32 := true }

def tensorOf (shape : List Nat) : TorchTensor Int :=
  { shape := shape, entry := fun _ => 1, isCuda := false, isFloat32 := true }

theorem plainSettings_nonzero : plainSettings.NonzeroSplits := by
  simp [Settings.NonzeroSplits, plainSettings]

theorem sampleFactor_batchedProduct :
    (matmulPatch plainSettings multiplyingBackends 3 sampleFactor sharedFactor none none).Returns
      (IsProduct sampleFactor.toNdArray sharedFactor.toNdArray · 3 [2]) :=
  matmulPatch_batchedProduct multiplyingBackends_exact plainSettings_nonzero ⟨rfl, rfl⟩
    ⟨rfl, rfl⟩ (by decide) (by decide) ⟨rfl, rfl, rfl⟩ 0 none

end Sample

end NpuMatmul
