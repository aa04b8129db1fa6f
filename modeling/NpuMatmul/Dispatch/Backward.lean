import NpuMatmul.Dispatch.BatchedMatmul
import NpuMatmul.Shared.MatrixAdjoint

set_option autoImplicit false

namespace NpuMatmul

open NdArray RowMajor

section Code

variable {R : Type}

-- What forward leaves in ctx.
structure MatMulContext (R : Type) where
  inputA : TorchTensor R
  inputB : TorchTensor R
  backendChoice : Int

def TorchTensor.t (a : TorchTensor R) : TorchTensor R := a.holding a.transposed

variable [Zero R] (settings : Settings) (backends : Backends R) (frames : Nat)

-- The gradients of input_a and input_b; that of backend_choice is None.
def backward (ctx : MatMulContext R) (gradOutput : TorchTensor R) :
    Dispatch R (NdArray R × NdArray R) := do
  let gradA ← matmulPatch settings backends frames gradOutput ctx.inputB.t none
    (some ctx.backendChoice)
  let gradB ← matmulPatch settings backends frames ctx.inputA.t gradOutput none
    (some ctx.backendChoice)
  pure (gradA, gradB)

-- The rules of autograd: the gradient of a slice is that of the array in place, with zeros beyond
-- it, and the gradient of what is assigned to a slice is the slice of the gradient.
def sliceBackward (shape sizes : List Nat) (grad : NdArray R) : Option (NdArray R) :=
  (zeros shape).assign sizes grad

def assignBackward (sizes : List Nat) (grad : NdArray R) : NdArray R := grad.crop sizes

def matricesBackward (ctx : MatMulContext R) (gradOutput : TorchTensor R) :
    Dispatch R (NdArray R × NdArray R) :=
  match ctx.inputA.shape, ctx.inputB.shape with
  | [m, k], [_, n] =>
      if padded m ≠ m ∨ padded k ≠ k ∨ padded n ≠ n then do
        let aPadded ← .lift ((zeros [padded m, padded k]).assign [m, k] ctx.inputA.toNdArray)
        let bPadded ← .lift ((zeros [padded k, padded n]).assign [k, n] ctx.inputB.toNdArray)
        let gradPadded ← .lift
          (sliceBackward [padded m, padded n] [m, n] gradOutput.toNdArray)
        let ctxPadded := { ctx with
          inputA := ctx.inputA.holding aPadded, inputB := ctx.inputB.holding bPadded }
        let (gradA, gradB) ← backward settings backends frames ctxPadded
          (gradOutput.holding gradPadded)
        pure (assignBackward [m, k] gradA, assignBackward [k, n] gradB)
      else backward settings backends frames ctx gradOutput
  | _, _ => .raised

end Code

section Padding

variable {R : Type} [NonUnitalNonAssocSemiring R] {a b c p q : NdArray R} {m k n : Nat}

theorem PaddedBy.transposed (padA : PaddedBy m k a p) :
    PaddedBy k m a.transposed p.transposed := by
  refine ⟨shape_transposed padA.shape, fun row column => ?_⟩
  change p.entry [column, row] = if _ then a.entry [column, row] else 0
  rw [padA.entry]
  simp only [and_comm]

structure ZeroBeyond (rows columns : Nat) (p : NdArray R) : Prop where
  shape : p.shape = [padded rows, padded columns]
  entry : ∀ row < padded rows, ∀ column < padded columns, ¬ (row < rows ∧ column < columns) →
    p.entry [row, column] = 0

theorem product_zeroBeyond (padA : PaddedBy m k a p) (padB : PaddedBy k n b q)
    (product : IsProduct p q c (padded k) []) : ZeroBeyond m n c := by
  obtain ⟨shape, entry⟩ := (isProduct_matrices padA.shape padB.shape).mp product
  refine ⟨shape, fun row rowBelow column columnBelow outside => ?_⟩
  rw [entry row rowBelow column columnBelow]
  apply Finset.sum_eq_zero
  intro x _
  rw [padA.entry, padB.entry]
  by_cases rowInside : row < m
  · have columnOutside : ¬ column < n := fun inside => outside ⟨rowInside, inside⟩
    rw [if_neg (fun inside : x < k ∧ column < n => columnOutside inside.2), mul_zero]
  · rw [if_neg (fun inside : row < m ∧ x < k => rowInside inside.1), zero_mul]

end Padding

section Gradients

variable {R : Type} [CommSemiring R] {settings : Settings} {backends : Backends R}
  {a b g : TorchTensor R} {m k n : Nat}

structure Gradients (a b g : NdArray R) (m n : Nat) (grads : NdArray R × NdArray R) : Prop where
  left : IsProduct g b.transposed grads.1 n []
  right : IsProduct a.transposed g grads.2 m []

theorem backward_gradients (exact : ExactBackends backends) (nonzero : settings.NonzeroSplits)
    (cpuA : a.CpuFloat32) (cpuB : b.CpuFloat32) (cpuG : g.CpuFloat32) (left : a.shape = [m, k])
    (right : b.shape = [k, n]) (output : g.shape = [m, n]) (rows : 0 < m) (inner : 0 < k)
    (columns : 0 < n) (frames : Nat) (backendChoice : Int) :
    (backward settings backends (frames + 2) ⟨a, b, backendChoice⟩ g).Returns
      (Gradients a.toNdArray b.toNdArray g.toNdArray m n) := by
  apply (matrices_product exact nonzero cpuG (cpuB.holding _) output (shape_transposed right) rows
    columns inner frames _).bind
  intro gradA productA
  apply (matrices_product exact nonzero (cpuA.holding _) cpuG (shape_transposed left) output inner
    rows columns frames _).bind
  intro gradB productB
  exact .pure ⟨productA, productB⟩

variable {grads : NdArray R × NdArray R}

theorem Gradients.matrices {a b g : NdArray R} (gradients : Gradients a b g m n grads)
    (left : a.shape = [m, k]) (right : b.shape = [k, n]) (output : g.shape = [m, n]) :
    (grads.1.shape = [m, k] ∧ grads.1.matrix m k = g.matrix m n * (b.matrix k n).transpose) ∧
      grads.2.shape = [k, n] ∧ grads.2.matrix k n = (a.matrix m k).transpose * g.matrix m n :=
  ⟨matrix_product output (shape_transposed right) gradients.left,
    matrix_product (shape_transposed left) output gradients.right⟩

theorem Gradients.cropped {a b g p q h : NdArray R} (left : a.shape = [m, k])
    (right : b.shape = [k, n]) (output : g.shape = [m, n]) (padA : PaddedBy m k a p)
    (padB : PaddedBy k n b q) (padG : PaddedBy m n g h)
    (gradients : Gradients p q h (padded m) (padded n) grads) :
    Gradients a b g m n (assignBackward [m, k] grads.1, assignBackward [k, n] grads.2) ∧
      ZeroBeyond m k grads.1 ∧ ZeroBeyond k n grads.2 := by
  refine ⟨⟨?_, ?_⟩, ?_, ?_⟩
  · exact cropped_product output (shape_transposed right) padG padB.transposed gradients.left
  · exact cropped_product (shape_transposed left) output padA.transposed padG gradients.right
  · exact product_zeroBeyond padG padB.transposed gradients.left
  · exact product_zeroBeyond padA.transposed padG gradients.right

theorem matricesBackward_gradients (exact : ExactBackends backends)
    (nonzero : settings.NonzeroSplits) (cpuA : a.CpuFloat32) (cpuB : b.CpuFloat32)
    (cpuG : g.CpuFloat32) (left : a.shape = [m, k]) (right : b.shape = [k, n])
    (output : g.shape = [m, n]) (rows : 0 < m) (inner : 0 < k) (columns : 0 < n) (frames : Nat)
    (backendChoice : Int) :
    (matricesBackward settings backends (frames + 2) ⟨a, b, backendChoice⟩ g).Returns
      (Gradients a.toNdArray b.toNdArray g.toNdArray m n) := by
  by_cases aligned : Aligned m k n
  · have same : matricesBackward settings backends (frames + 2) ⟨a, b, backendChoice⟩ g =
        backward settings backends (frames + 2) ⟨a, b, backendChoice⟩ g := by
      simp [matricesBackward, left, right, aligned.1, aligned.2.1, aligned.2.2]
    rw [same]
    exact backward_gradients exact nonzero cpuA cpuB cpuG left right output rows inner columns
      frames backendChoice
  · obtain ⟨p, storedA, padA⟩ := assign_padded left
    obtain ⟨q, storedB, padB⟩ := assign_padded right
    obtain ⟨h, storedG, padG⟩ := assign_padded output
    have unequal : padded m ≠ m ∨ padded k ≠ k ∨ padded n ≠ n := by
      simpa only [Aligned, not_and_or] using aligned
    simp only [matricesBackward, left, right, if_pos unequal, storedA, storedB, sliceBackward,
      storedG, Traced.lift_some, Traced.pure_bind]
    apply (backward_gradients exact nonzero (cpuA.holding p) (cpuB.holding q) (cpuG.holding h)
      padA.shape padB.shape padG.shape (rows.trans_le (le_padded m)) (inner.trans_le (le_padded k))
      (columns.trans_le (le_padded n)) frames backendChoice).bind
    intro grads gradients
    exact .pure (gradients.cropped left right output padA padB padG).1

-- The backward pass is the adjoint of the derivative of the product, and what comes through the
-- padding is the same pair: the gradients of the padded factors are zero where they are padded.
theorem backward_adjoint (exact : ExactBackends backends) (nonzero : settings.NonzeroSplits)
    (cpuA : a.CpuFloat32) (cpuB : b.CpuFloat32) (cpuG : g.CpuFloat32) (left : a.shape = [m, k])
    (right : b.shape = [k, n]) (output : g.shape = [m, n]) (rows : 0 < m) (inner : 0 < k)
    (columns : 0 < n) (frames : Nat) (backendChoice : Int) :
    (backward settings backends (frames + 2) ⟨a, b, backendChoice⟩ g).Returns fun grads =>
      (grads.1.shape = [m, k] ∧ grads.2.shape = [k, n] ∧
        ∀ dA dB, frobenius (g.matrix m n) (dA * b.matrix k n + a.matrix m k * dB) =
          frobenius (grads.1.matrix m k) dA + frobenius (grads.2.matrix k n) dB) ∧
      ((matricesBackward settings backends (frames + 2) ⟨a, b, backendChoice⟩ g).Returns
        fun through => through.1.shape = [m, k] ∧ through.2.shape = [k, n] ∧
          through.1.matrix m k = grads.1.matrix m k ∧
          through.2.matrix k n = grads.2.matrix k n) ∧
      ∀ p q h, PaddedBy m k a.toNdArray p → PaddedBy k n b.toNdArray q →
        PaddedBy m n g.toNdArray h →
          (backward settings backends (frames + 2)
            ⟨a.holding p, b.holding q, backendChoice⟩ (g.holding h)).Returns fun wide =>
              ZeroBeyond m k wide.1 ∧ ZeroBeyond k n wide.2 := by
  apply (backward_gradients exact nonzero cpuA cpuB cpuG left right output rows inner columns frames
    backendChoice).mono
  intro grads gradients
  obtain ⟨⟨shapeA, matrixA⟩, shapeB, matrixB⟩ := gradients.matrices left right output
  refine ⟨⟨shapeA, shapeB, fun dA dB => ?_⟩, ?_, fun p q h padA padB padG => ?_⟩
  · rw [matrixA, matrixB]
    exact frobenius_derivative _ _ dA _ dB
  · apply (matricesBackward_gradients exact nonzero cpuA cpuB cpuG left right output rows inner
      columns frames backendChoice).mono
    intro through same
    obtain ⟨⟨throughA, productA⟩, throughB, productB⟩ := same.matrices left right output
    exact ⟨throughA, throughB, productA.trans matrixA.symm, productB.trans matrixB.symm⟩
  · apply (backward_gradients exact nonzero (cpuA.holding p) (cpuB.holding q) (cpuG.holding h)
      padA.shape padB.shape padG.shape (rows.trans_le (le_padded m)) (inner.trans_le (le_padded k))
      (columns.trans_le (le_padded n)) frames backendChoice).mono
    intro wide wideGradients
    exact (wideGradients.cropped left right output padA padB padG).2

end Gradients

section Sample

def sampleTensor (shape : List Nat) : TorchTensor Int :=
  { shape := shape, entry := fun index => index.foldl (fun sum i => 3 * sum + i) 1
    isCuda := false, isFloat32 := true }

theorem backward_adjoint_sample :
    (backward plainSettings multiplyingBackends 2
      ⟨sampleTensor [2, 3], sampleTensor [3, 5], 1⟩ (sampleTensor [2, 5])).Returns fun grads =>
        (grads.1.shape = [2, 3] ∧ grads.2.shape = [3, 5] ∧
          ∀ dA dB, frobenius ((sampleTensor [2, 5]).matrix 2 5)
              (dA * (sampleTensor [3, 5]).matrix 3 5 + (sampleTensor [2, 3]).matrix 2 3 * dB) =
            frobenius (grads.1.matrix 2 3) dA + frobenius (grads.2.matrix 3 5) dB) :=
  (backward_adjoint multiplyingBackends_exact plainSettings_nonzero ⟨rfl, rfl⟩ ⟨rfl, rfl⟩
    ⟨rfl, rfl⟩ rfl rfl rfl (by decide) (by decide) (by decide) 0 1).mono fun _ holds => holds.1

end Sample

end NpuMatmul
