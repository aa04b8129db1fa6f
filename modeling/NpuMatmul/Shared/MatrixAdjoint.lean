import Mathlib.LinearAlgebra.Matrix.Trace
import NpuMatmul.Shared.BatchedProduct

set_option autoImplicit false

namespace NdArray

open Matrix

section Frobenius

variable {R l m n : Type} [CommSemiring R] [Fintype l] [Fintype m] [Fintype n]

def frobenius (X Y : Matrix m n R) : R := ∑ i, ∑ j, X i j * Y i j

theorem frobenius_trace (X Y : Matrix m n R) : frobenius X Y = (Xᵀ * Y).trace := by
  simp only [frobenius, Matrix.trace, Matrix.diag_apply, Matrix.mul_apply, Matrix.transpose_apply]
  exact Finset.sum_comm

theorem frobenius_add (X Y Z : Matrix m n R) :
    frobenius X (Y + Z) = frobenius X Y + frobenius X Z := by
  simp only [frobenius_trace, Matrix.mul_add, Matrix.trace_add]

theorem frobenius_mul_right (G : Matrix m n R) (X : Matrix m l R) (B : Matrix l n R) :
    frobenius G (X * B) = frobenius (G * Bᵀ) X := by
  calc frobenius G (X * B)
      = (Gᵀ * X * B).trace := by rw [frobenius_trace, Matrix.mul_assoc]
    _ = (B * Gᵀ * X).trace := Matrix.trace_mul_cycle Gᵀ X B
    _ = frobenius (G * Bᵀ) X := by
        rw [frobenius_trace, Matrix.transpose_mul, Matrix.transpose_transpose]

theorem frobenius_mul_left (G : Matrix m n R) (A : Matrix m l R) (X : Matrix l n R) :
    frobenius G (A * X) = frobenius (Aᵀ * G) X := by
  calc frobenius G (A * X)
      = (Gᵀ * A * X).trace := by rw [frobenius_trace, Matrix.mul_assoc]
    _ = frobenius (Aᵀ * G) X := by
        rw [frobenius_trace, Matrix.transpose_mul, Matrix.transpose_transpose]

theorem frobenius_derivative (G : Matrix m n R) (A X : Matrix m l R) (B Y : Matrix l n R) :
    frobenius G (X * B + A * Y) = frobenius (G * Bᵀ) X + frobenius (Aᵀ * G) Y := by
  rw [frobenius_add, frobenius_mul_right, frobenius_mul_left]

end Frobenius

section Matrices

variable {R : Type} {a b c : NdArray R} {m k n : Nat}

def matrix (a : NdArray R) (rows columns : Nat) : Matrix (Fin rows) (Fin columns) R :=
  fun i j => a.entry [i, j]

-- t() of a matrix.
def transposed (a : NdArray R) : NdArray R :=
  { shape := a.shape.reverse, entry := fun index => a.entry index.reverse }

theorem shape_transposed (shape : a.shape = [m, k]) : a.transposed.shape = [k, m] := by
  simp [transposed, shape]

theorem matrix_product [NonUnitalNonAssocSemiring R] (left : a.shape = [m, k])
    (right : b.shape = [k, n]) (product : IsProduct a b c k []) :
    c.shape = [m, n] ∧ c.matrix m n = a.matrix m k * b.matrix k n := by
  obtain ⟨shape, entry⟩ := (isProduct_matrices left right).mp product
  refine ⟨shape, ?_⟩
  ext i j
  rw [Matrix.mul_apply, matrix, entry i i.isLt j j.isLt, Finset.sum_range]
  rfl

end Matrices

end NdArray
