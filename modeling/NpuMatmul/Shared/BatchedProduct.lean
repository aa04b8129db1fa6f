import Mathlib.Algebra.BigOperators.Group.Finset.Basic
import Mathlib.Algebra.Ring.Defs
import NpuMatmul.Shared.NdArray

set_option autoImplicit false

namespace NdArray

open RowMajor

variable {R : Type}

-- The dimensions of a product's factors, of any rank from 1: a left factor of rank 1 has no rows,
-- and a right factor of rank 1 no columns.
def rowDims (shape : List Nat) : List Nat := (lastTwo shape).dropLast

def columnDims (shape : List Nat) : List Nat := (lastTwo shape).tail

def innerLeft (shape : List Nat) : Option Nat := (lastTwo shape).getLast?

def innerRight (shape : List Nat) : Option Nat := (lastTwo shape).head?

structure Multipliable (shape other : List Nat) (inner : Nat) (batch : List Nat) : Prop where
  left : innerLeft shape = some inner
  right : innerRight other = some inner
  batch : broadcastShapes (leading shape) (leading other) = some batch

-- What a batched matrix product is: each entry is the sum over the contracted index, with every
-- batch index read where the factor has it.
structure IsProduct [NonUnitalNonAssocSemiring R] (a b c : NdArray R) (inner : Nat)
    (batch : List Nat) : Prop where
  shape : c.shape = batch ++ rowDims a.shape ++ columnDims b.shape
  entry : ∀ index row column, Inside batch index → Inside (rowDims a.shape) row →
    Inside (columnDims b.shape) column →
      c.entry (index ++ row ++ column) = ∑ x ∈ Finset.range inner,
        a.entry (project (leading a.shape) index ++ row ++ [x]) *
          b.entry (project (leading b.shape) index ++ x :: column)

section Dims

variable {lead : List Nat} {size rows columns : Nat}

@[simp] theorem rowDims_append : rowDims (lead ++ [rows, columns]) = [rows] := by
  simp [rowDims, lastTwo]

@[simp] theorem columnDims_append : columnDims (lead ++ [rows, columns]) = [columns] := by
  simp [columnDims, lastTwo]

@[simp] theorem innerLeft_append : innerLeft (lead ++ [rows, columns]) = some columns := by
  simp [innerLeft, lastTwo]

@[simp] theorem innerRight_append : innerRight (lead ++ [rows, columns]) = some rows := by
  simp [innerRight, lastTwo]

theorem Multipliable.matrices {leadB batch : List Nat} {m k l n inner : Nat}
    (multiplies : Multipliable (lead ++ [m, k]) (leadB ++ [l, n]) inner batch) :
    k = inner ∧ l = inner ∧ broadcastShapes lead leadB = some batch := by
  obtain ⟨left, right, common⟩ := multiplies
  rw [innerLeft_append, Option.some.injEq] at left
  rw [innerRight_append, Option.some.injEq] at right
  rw [leading_append, leading_append] at common
  exact ⟨left, right, common⟩

theorem innerLeft_nonempty {shape : List Nat} {k : Nat} (multiplied : innerLeft shape = some k) :
    shape ≠ [] := by
  rintro rfl
  cases multiplied

theorem innerRight_nonempty {shape : List Nat} {l : Nat} (multiplied : innerRight shape = some l) :
    shape ≠ [] := by
  rintro rfl
  cases multiplied

end Dims

section Reference

variable [NonUnitalNonAssocSemiring R]

def product (a b : NdArray R) (inner : Nat) (batch : List Nat) : NdArray R :=
  { shape := batch ++ rowDims a.shape ++ columnDims b.shape
    entry := fun position =>
      let index := position.take batch.length
      let row := (position.drop batch.length).take (rowDims a.shape).length
      let column := (position.drop batch.length).drop (rowDims a.shape).length
      ∑ x ∈ Finset.range inner, a.entry (project (leading a.shape) index ++ row ++ [x]) *
        b.entry (project (leading b.shape) index ++ x :: column) }

theorem isProduct_product (a b : NdArray R) (inner : Nat) (batch : List Nat) :
    IsProduct a b (product a b inner batch) inner batch := by
  refine ⟨rfl, fun index row column inside insideRow _ => ?_⟩
  simp [product, ← inside.length_eq, ← insideRow.length_eq]

def multiply (a b : NdArray R) : Option (NdArray R) := do
  let inner ← innerLeft a.shape
  let innerB ← innerRight b.shape
  let batch ← broadcastShapes (leading a.shape) (leading b.shape)
  if inner = innerB then pure (product a b inner batch) else none

theorem multiply_product {a b : NdArray R} {inner : Nat} {batch : List Nat}
    (multiplies : Multipliable a.shape b.shape inner batch) :
    ∃ c, multiply a b = some c ∧ IsProduct a b c inner batch := by
  refine ⟨product a b inner batch, ?_, isProduct_product a b inner batch⟩
  simp [multiply, multiplies.left, multiplies.right, multiplies.batch]

theorem multiply_none {a b : NdArray R} (differ : innerLeft a.shape ≠ innerRight b.shape) :
    multiply a b = none := by
  cases left : innerLeft a.shape <;> cases right : innerRight b.shape <;>
    cases common : broadcastShapes (leading a.shape) (leading b.shape) <;>
    simp_all [multiply]

end Reference

section Matrices

variable [NonUnitalNonAssocSemiring R] {a b c : NdArray R} {m k n : Nat}

theorem isProduct_matrices (left : a.shape = [m, k]) (right : b.shape = [k, n]) :
    IsProduct a b c k [] ↔ c.shape = [m, n] ∧ ∀ row < m, ∀ column < n,
      c.entry [row, column] = ∑ x ∈ Finset.range k, a.entry [row, x] * b.entry [x, column] := by
  have rows : rowDims a.shape = [m] := by simp [left, rowDims, lastTwo]
  have columns : columnDims b.shape = [n] := by simp [right, columnDims, lastTwo]
  have leadA : leading a.shape = [] := by simp [left, leading]
  have leadB : leading b.shape = [] := by simp [right, leading]
  constructor
  · rintro ⟨shape, entry⟩
    rw [rows, columns] at shape entry
    refine ⟨shape, fun row rowBelow column columnBelow => ?_⟩
    have own := entry [] [row] [column] .nil (.cons rowBelow .nil) (.cons columnBelow .nil)
    simpa [leadA, leadB, project] using own
  · rintro ⟨shape, entry⟩
    refine ⟨by simp [rows, columns, shape], ?_⟩
    intro index row column inside insideRow insideColumn
    rw [rows] at insideRow
    rw [columns] at insideColumn
    cases inside
    obtain ⟨r, rfl⟩ := List.length_eq_one_iff.mp insideRow.length_eq
    obtain ⟨j, rfl⟩ := List.length_eq_one_iff.mp insideColumn.length_eq
    have own := entry r (inside_cons.mp insideRow).1 j (inside_cons.mp insideColumn).1
    simpa [leadA, leadB, project] using own

end Matrices

end NdArray
