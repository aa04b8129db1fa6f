import NpuMatmul.Dispatch.BatchedMatmul
import NpuMatmul.Dispatch.VectorOperands
import NpuMatmul.Shared.Elementwise
import NpuMatmul.Shared.MatrixAdjoint

set_option autoImplicit false

namespace NpuMatmul

open NdArray RowMajor

section Code

variable {R : Type}

-- t() takes at most two dimensions.
def TorchTensor.checkedT (a : TorchTensor R) : Option (TorchTensor R) :=
  if a.shape.length ≤ 2 then some (a.holding a.transposed) else none

def linearPatch [Zero R] [Add R] (settings : Settings) (backends : Backends R) (frames : Nat)
    (input weight : TorchTensor R) (bias : Option (NdArray R)) : Dispatch R (NdArray R) := do
  let weightT ← .lift weight.checkedT
  let output ← matmulPatch settings backends frames input weightT none none
  match bias with
  | none => pure output
  | some bias => .lift (output.update (· + ·) bias)

def mmPatch [Zero R] (settings : Settings) (backends : Backends R) (frames : Nat)
    (input mat2 : TorchTensor R) (out : Option (NdArray R)) : Dispatch R (NdArray R) :=
  matmulPatch settings backends frames input mat2 out none

def addmmPatch [Zero R] [Add R] [Mul R] (settings : Settings) (backends : Backends R)
    (frames : Nat) (input : NdArray R) (mat1 mat2 : TorchTensor R) (beta alpha : R)
    (out : Option (NdArray R)) : Dispatch R (NdArray R) := do
  let mulRes ← matmulPatch settings backends frames mat1 mat2 none none
  let res ← .lift ((input.map (beta * ·)).combine (· + ·) (mulRes.map (alpha * ·)))
  handBack out res

end Code

section Product

variable {R : Type} [NonUnitalNonAssocSemiring R] {settings : Settings} {backends : Backends R}
  {a b : TorchTensor R} {lead : List Nat} {m k n : Nat}

structure IsRowProduct (lead : List Nat) (k n : Nat) (a b c : NdArray R) : Prop where
  shape : c.shape = lead ++ [n]
  entry : ∀ index column, Inside lead index → column < n →
    c.entry (index ++ [column]) =
      ∑ x ∈ Finset.range k, a.entry (index ++ [x]) * b.entry [x, column]

theorem rowProduct_vector {a b c : NdArray R} (left : a.shape = [k]) (right : b.shape = [k, n])
    (product : IsProduct a b c k []) : IsRowProduct [] k n a b c := by
  have rows : rowDims a.shape = [] := by simp [left, rowDims, lastTwo]
  have columns : columnDims b.shape = [n] := by simp [right, columnDims, lastTwo]
  obtain ⟨shape, entry⟩ := product
  rw [rows, columns] at shape entry
  refine ⟨shape, fun index column inside below => ?_⟩
  cases inside
  simpa [left, right, leading, project] using entry [] [] [column] .nil .nil (.cons below .nil)

theorem rowProduct_matrices {a b c : NdArray R} (left : a.shape = lead ++ [m, k])
    (right : b.shape = [k, n]) (product : IsProduct a b c k lead) :
    IsRowProduct (lead ++ [m]) k n a b c := by
  have columns : columnDims b.shape = [n] := by simp [right, columnDims, lastTwo]
  have leadB : leading b.shape = [] := by simp [right, leading]
  obtain ⟨shape, entry⟩ := product
  rw [left, rowDims_append] at shape entry
  rw [columns] at shape entry
  refine ⟨shape, fun position column insideWhole below => ?_⟩
  obtain ⟨index, row, inside, insideRow, rfl⟩ := insideWhole.split
  have own := entry index row [column] inside insideRow (.cons below .nil)
  rw [leading_append, leadB, project_inside inside] at own
  simpa [project] using own

theorem matmulPatch_rowProduct (exact : ExactBackends backends) (nonzero : settings.NonzeroSplits)
    (cpuA : a.CpuFloat32) (cpuB : b.CpuFloat32) (left : a.shape = lead ++ [k])
    (right : b.shape = [k, n]) (positive : PositiveDims a.shape) (columns : 0 < n) (frames : Nat)
    (backendChoice : Option Int) :
    (matmulPatch settings backends (frames + 3) a b none backendChoice).Returns
      (IsRowProduct lead k n a.toNdArray b.toNdArray) := by
  have inner : 0 < k := positive k (by simp [left])
  rcases List.eq_nil_or_concat lead with rfl | ⟨lead, m, rfl⟩
  · have product := patchRowVector_product exact nonzero cpuA cpuB frames backendChoice left right
      inner columns
    exact product.mono fun c holds => rowProduct_vector left right holds
  · have whole : a.shape = lead ++ [m, k] := by simp [left]
    rw [List.concat_eq_append]
    suffices product : (matmulPatch settings backends (frames + 3) a b none backendChoice).Returns
        (IsProduct a.toNdArray b.toNdArray · k lead) from
      product.mono fun c holds => rowProduct_matrices whole right holds
    by_cases matrix : lead = []
    · subst matrix
      exact matrices_product exact nonzero cpuA cpuB whole right (positive m (by simp [left])) inner
        columns (frames + 1) backendChoice
    · exact patchRows_product exact nonzero cpuA cpuB frames backendChoice matrix whole right
        (whole ▸ positive) columns

end Product

section Linear

variable {R : Type} [NonUnitalNonAssocSemiring R] {settings : Settings} {backends : Backends R}
  {lead : List Nat} {k n : Nat}

-- The patched linear layer takes the rows of its input, of any rank, to their products with the
-- rows of weight, and adds the bias where it is broadcast.
theorem linearPatch_correct (exact : ExactBackends backends) (nonzero : settings.NonzeroSplits)
    {input weight : TorchTensor R} (cpuInput : input.CpuFloat32) (cpuWeight : weight.CpuFloat32)
    (left : input.shape = lead ++ [k]) (right : weight.shape = [n, k])
    (positive : PositiveDims input.shape) (columns : 0 < n) (bias : Option (NdArray R))
    (fits : ∀ array, bias = some array → Expands array.shape (lead ++ [n])) (frames : Nat) :
    (linearPatch settings backends (frames + 3) input weight bias).Returns fun c =>
      c.shape = lead ++ [n] ∧ ∀ index column, Inside lead index → column < n →
        c.entry (index ++ [column]) =
          ∑ x ∈ Finset.range k, input.entry (index ++ [x]) * weight.entry [column, x] +
            bias.elim 0 fun array => array.entry (project array.shape (index ++ [column])) := by
  have shapeT : (weight.holding weight.transposed).shape = [k, n] := shape_transposed right
  have checked : weight.checkedT = some (weight.holding weight.transposed) := by
    simp [TorchTensor.checkedT, right]
  rw [linearPatch, checked, Traced.lift_some, Traced.pure_bind]
  apply (matmulPatch_rowProduct exact nonzero cpuInput (cpuWeight.holding _) left shapeT positive
    columns frames none).bind
  rintro output ⟨shape, entry⟩
  have product : ∀ index column, Inside lead index → column < n → output.entry (index ++ [column]) =
      ∑ x ∈ Finset.range k, input.entry (index ++ [x]) * weight.entry [column, x] := entry
  cases bias with
  | none =>
      refine .pure ⟨shape, fun index column inside below => ?_⟩
      rw [product index column inside below, Option.elim_none, add_zero]
  | some array =>
      have expands : Expands array.shape output.shape := by
        rw [shape]
        exact fits array rfl
      obtain ⟨c, updated, shapeC, entryC⟩ := update_entry (· + ·) expands
      refine .lift ⟨c, updated, shapeC.trans shape, fun index column inside below => ?_⟩
      rw [entryC, product index column inside below, Option.elim_some]

-- Two 2 x 3 inputs, a 5 x 3 weight and one bias for each of the five features.
theorem linearPatch_sample :
    (linearPatch plainSettings multiplyingBackends 3 sampleFactor (tensorOf [5, 3])
        (some (tensorOf [5]).toNdArray)).Returns fun c =>
      c.shape = [2, 2] ++ [5] ∧ ∀ index column, Inside [2, 2] index → column < 5 →
        c.entry (index ++ [column]) =
          ∑ x ∈ Finset.range 3,
              sampleFactor.entry (index ++ [x]) * (tensorOf [5, 3]).entry [column, x] +
            (tensorOf [5]).entry (project [5] (index ++ [column])) := by
  have positive : PositiveDims sampleFactor.shape := by decide
  have fits : ∀ array, some (tensorOf [5]).toNdArray = some array →
      Expands array.shape ([2, 2] ++ [5]) := by
    rintro array ⟨⟩
    decide
  exact linearPatch_correct multiplyingBackends_exact plainSettings_nonzero ⟨rfl, rfl⟩ ⟨rfl, rfl⟩
    rfl rfl positive (by decide) (some (tensorOf [5]).toNdArray) fits 0

end Linear

section Addmm

variable {R : Type} [NonUnitalNonAssocSemiring R] {settings : Settings} {backends : Backends R}
  {m k n : Nat}

theorem mmPatch_product (exact : ExactBackends backends) (nonzero : settings.NonzeroSplits)
    {input mat2 : TorchTensor R} (cpuA : input.CpuFloat32) (cpuB : mat2.CpuFloat32)
    (left : input.shape = [m, k]) (right : mat2.shape = [k, n]) (rows : 0 < m) (inner : 0 < k)
    (columns : 0 < n) (out : Option (NdArray R))
    (outShape : ∀ array, out = some array → array.shape = [m, n]) (frames : Nat) :
    (mmPatch settings backends (frames + 2) input mat2 out).Returns
      (IsProduct input.toNdArray mat2.toNdArray · k []) := by
  have passed : mmPatch settings backends (frames + 2) input mat2 out =
      matmulPatch settings backends (frames + 2) input mat2 none none >>= handBack out := by
    rw [matmulPatch_matrices cpuA cpuB _ _ (by simp [left]) (by simp [right])]
    simp only [mmPatch, matmulPatch, cpuA.1, cpuA.2, cpuB.1, cpuB.2, left, right]
    rfl
  rw [passed]
  apply (matrices_product exact nonzero cpuA cpuB left right rows inner columns frames none).bind
  intro res product
  obtain ⟨shape, entry⟩ := (isProduct_matrices left right).mp product
  obtain ⟨c, handed, shapeC, same⟩ := handBack_same out res fun array given => by
    rw [outShape array given, shape]
  rw [handed]
  refine .pure ((isProduct_matrices left right).mpr ⟨shapeC.trans shape, ?_⟩)
  intro row below column inside
  have within : Inside c.shape [row, column] := by
    rw [shapeC, shape]
    exact .cons below (.cons inside .nil)
  rw [same _ within, entry row below column inside]

-- torch.addmm as patched: beta times the input, broadcast, and alpha times the product.
theorem addmmPatch_correct (exact : ExactBackends backends) (nonzero : settings.NonzeroSplits)
    {input : NdArray R} {mat1 mat2 : TorchTensor R} (cpuA : mat1.CpuFloat32)
    (cpuB : mat2.CpuFloat32) (left : mat1.shape = [m, k]) (right : mat2.shape = [k, n])
    (fits : Expands input.shape [m, n]) (rows : 0 < m) (inner : 0 < k) (columns : 0 < n)
    (beta alpha : R) (out : Option (NdArray R))
    (outShape : ∀ array, out = some array → array.shape = [m, n]) (frames : Nat) :
    (addmmPatch settings backends (frames + 2) input mat1 mat2 beta alpha out).Returns fun c =>
      c.shape = [m, n] ∧ ∀ row < m, ∀ column < n, c.entry [row, column] =
        beta * input.entry (project input.shape [row, column]) +
          alpha * ∑ x ∈ Finset.range k, mat1.entry [row, x] * mat2.entry [x, column] := by
  apply (matrices_product exact nonzero cpuA cpuB left right rows inner columns frames none).bind
  intro mulRes product
  obtain ⟨shape, entry⟩ := (isProduct_matrices left right).mp product
  have common : broadcastShapes (input.map (beta * ·)).shape (mulRes.map (alpha * ·)).shape =
      some [m, n] := by
    change broadcastShapes input.shape mulRes.shape = _
    rw [shape, fits.common]
  obtain ⟨res, combined, shapeR, entryR⟩ := combine_entry (· + ·) common
  rw [combined, Traced.lift_some, Traced.pure_bind]
  obtain ⟨c, handed, shapeC, same⟩ := handBack_same out res fun array given => by
    rw [outShape array given, shapeR]
  rw [handed]
  refine .pure ⟨shapeC.trans shapeR, fun row below column inside => ?_⟩
  have within : Inside [m, n] [row, column] := .cons below (.cons inside .nil)
  have whole : project mulRes.shape [row, column] = [row, column] := project_inside (shape ▸ within)
  rw [← shapeR, ← shapeC] at within
  rw [same _ within, entryR]
  simp only [NdArray.map, whole, entry row below column inside]

-- A column for both columns of the product, which is copied to an array that is there.
theorem addmmPatch_sample :
    (addmmPatch plainSettings multiplyingBackends 2 (tensorOf [3, 1]).toNdArray (tensorOf [3, 4])
        (tensorOf [4, 2]) 5 7 (some (zeros [3, 2]))).Returns fun c =>
      c.shape = [3, 2] ∧ ∀ row < 3, ∀ column < 2, c.entry [row, column] =
        5 * (tensorOf [3, 1]).entry (project [3, 1] [row, column]) +
          7 * ∑ x ∈ Finset.range 4,
            (tensorOf [3, 4]).entry [row, x] * (tensorOf [4, 2]).entry [x, column] := by
  have fits : Expands (tensorOf [3, 1]).shape [3, 2] := by decide
  have outShape : ∀ array, some (zeros [3, 2] : NdArray Int) = some array →
      array.shape = [3, 2] := by
    rintro array ⟨⟩
    rfl
  exact addmmPatch_correct multiplyingBackends_exact plainSettings_nonzero ⟨rfl, rfl⟩ ⟨rfl, rfl⟩
    rfl rfl fits (by decide) (by decide) (by decide) 5 7 _ outShape 0

end Addmm

end NpuMatmul
