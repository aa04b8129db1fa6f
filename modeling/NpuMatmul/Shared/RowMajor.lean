import Mathlib.Algebra.BigOperators.Group.List.Basic
import Mathlib.Data.List.Forall2
import NpuMatmul.Shared.Loop

set_option autoImplicit false

-- The row-major order of the indices of a shape.
namespace RowMajor

def Inside (shape index : List Nat) : Prop := List.Forall₂ (fun size i => i < size) shape index

def ravel : List Nat → List Nat → Nat
  | _ :: shape, i :: index => i * shape.prod + ravel shape index
  | _, _ => 0

def unravel : List Nat → Nat → List Nat
  | [], _ => []
  | _ :: shape, position => position / shape.prod :: unravel shape (position % shape.prod)

variable {shape rest index later : List Nat} {size i position : Nat}

@[simp] theorem inside_nil : Inside [] index ↔ index = [] := by
  constructor
  · intro inside
    cases inside
    rfl
  · rintro rfl
    exact .nil

theorem inside_cons : Inside (size :: shape) (i :: index) ↔ i < size ∧ Inside shape index :=
  List.forall₂_cons

theorem Inside.length_eq (inside : Inside shape index) : index.length = shape.length :=
  (List.Forall₂.length_eq inside).symm

theorem Inside.append (inside : Inside shape index) (insideRest : Inside rest later) :
    Inside (shape ++ rest) (index ++ later) := by
  induction inside with
  | nil => exact insideRest
  | cons bound _ ih => exact .cons bound ih

theorem Inside.split {position : List Nat} (inside : Inside (shape ++ rest) position) :
    ∃ index later, Inside shape index ∧ Inside rest later ∧ position = index ++ later := by
  have first := List.forall₂_take shape.length inside
  have last := List.forall₂_drop shape.length inside
  rw [List.take_left] at first
  rw [List.drop_left] at last
  exact ⟨_, _, first, last, (List.take_append_drop shape.length position).symm⟩

theorem ravel_lt (inside : Inside shape index) : ravel shape index < shape.prod := by
  induction inside with
  | nil => simp [ravel]
  | cons bound inside ih =>
      rw [List.prod_cons]
      exact Loop.rowMajor_lt bound ih

theorem inside_unravel (bound : position < shape.prod) : Inside shape (unravel shape position) := by
  induction shape generalizing position with
  | nil => exact .nil
  | cons size shape ih =>
      rw [List.prod_cons] at bound
      have positive : 0 < shape.prod := Nat.pos_of_mul_pos_left (Nat.zero_lt_of_lt bound)
      exact .cons (Nat.div_lt_of_lt_mul (Nat.mul_comm size _ ▸ bound))
        (ih (Nat.mod_lt _ positive))

theorem unravel_ravel (inside : Inside shape index) :
    unravel shape (ravel shape index) = index := by
  induction inside with
  | nil => rfl
  | @cons size i shape index bound inside ih =>
      have small := ravel_lt inside
      simp only [unravel, ravel, Loop.rowMajor_div i small, Loop.rowMajor_mod i small, ih]

theorem ravel_append (inside : Inside shape index) :
    ravel (shape ++ rest) (index ++ later) = ravel shape index * rest.prod + ravel rest later := by
  induction inside with
  | nil => simp [ravel]
  | cons _ _ ih =>
      simp only [List.cons_append, ravel, ih, List.prod_append, Nat.add_mul, Nat.mul_assoc,
        Nat.add_assoc]

theorem unravel_append {first : Nat} (leading : first < shape.prod) (bound : position < rest.prod) :
    unravel (shape ++ rest) (first * rest.prod + position) =
      unravel shape first ++ unravel rest position := by
  induction shape generalizing first with
  | nil =>
      have zero : first = 0 := by simpa using leading
      simp [zero, unravel]
  | cons size shape ih =>
      rw [List.prod_cons] at leading
      have positive : 0 < shape.prod := Nat.pos_of_mul_pos_left (Nat.zero_lt_of_lt leading)
      have head : (first * rest.prod + position) / (shape.prod * rest.prod) =
          first / shape.prod := by
        rw [Nat.mul_comm shape.prod, ← Nat.div_div_eq_div_mul, Loop.rowMajor_div first bound]
      have tail : (first * rest.prod + position) % (shape.prod * rest.prod) =
          first % shape.prod * rest.prod + position := by
        rw [Nat.mul_comm shape.prod, Nat.mod_mul, Loop.rowMajor_div first bound,
          Loop.rowMajor_mod first bound, Nat.mul_comm rest.prod, Nat.add_comm]
      simp only [List.cons_append, unravel, List.prod_append, head, tail,
        ih (Nat.mod_lt _ positive)]

end RowMajor
