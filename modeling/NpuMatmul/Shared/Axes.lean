import NpuMatmul.Shared.NdArray

set_option autoImplicit false

namespace NdArray

open RowMajor

variable {R : Type}

def swapAxes {α : Type} (axis : Nat) (l : List α) : List α :=
  l.take axis ++ ((l.drop axis).take 2).reverse ++ l.drop (axis + 2)

def transpose (a : NdArray R) (axis : Nat) : NdArray R :=
  { shape := swapAxes axis a.shape, entry := fun index => a.entry (swapAxes axis index) }

-- transpose(-2, -1)
def transposeLast (a : NdArray R) : NdArray R := a.transpose (a.shape.length - 2)

theorem reshape_suffix {a : NdArray R} {lead old new : List Nat} (shape : a.shape = lead ++ old)
    (same : new.prod = old.prod) :
    ∃ c, a.reshape (lead ++ new) = some c ∧ c.shape = lead ++ new ∧
      ∀ index rest, Inside lead index → Inside new rest →
        c.entry (index ++ rest) = a.entry (index ++ unravel old (ravel new rest)) := by
  have whole : (lead ++ new).prod = a.shape.prod := by
    rw [shape, List.prod_append, List.prod_append, same]
  refine ⟨_, if_pos whole, rfl, fun index rest inside insideRest => ?_⟩
  have position : ravel new rest < old.prod := same ▸ ravel_lt insideRest
  simp only [ravel_append inside, same, shape]
  rw [unravel_append (ravel_lt inside) position, unravel_ravel inside]

theorem reshape_leading {a : NdArray R} {lead trailing : List Nat}
    (shape : a.shape = lead ++ trailing) :
    ∃ c, a.reshape (lead.prod :: trailing) = some c ∧ c.shape = lead.prod :: trailing ∧
      ∀ i rest, i < lead.prod → Inside trailing rest →
        c.entry (i :: rest) = a.entry (unravel lead i ++ rest) := by
  have whole : (lead.prod :: trailing).prod = a.shape.prod := by
    rw [shape, List.prod_cons, List.prod_append]
  refine ⟨_, if_pos whole, rfl, fun i rest below inside => ?_⟩
  simp only [ravel, shape]
  rw [unravel_append below (ravel_lt inside), unravel_ravel inside]

section Pairs

variable {lead index : List Nat} {rows columns i j : Nat}

theorem ravel_pair : ravel [rows, columns] [i, j] = i * columns + j := by
  simp [ravel]

theorem unravel_single {position : Nat} : unravel [rows] position = [position] := by
  simp [unravel]

theorem unravel_pair {position : Nat} :
    unravel [rows, columns] position = [position / columns, position % columns] := by
  simp [unravel]

variable {a : NdArray R}

theorem reshape_split (shape : a.shape = lead ++ [rows * columns]) :
    ∃ c, a.reshape (lead ++ [rows, columns]) = some c ∧ c.shape = lead ++ [rows, columns] ∧
      ∀ index i j, Inside lead index → i < rows → j < columns →
        c.entry (index ++ [i, j]) = a.entry (index ++ [i * columns + j]) := by
  have same : [rows, columns].prod = [rows * columns].prod := by simp
  obtain ⟨c, reshaped, shapeC, entry⟩ := reshape_suffix shape same
  refine ⟨c, reshaped, shapeC, fun index i j inside below within => ?_⟩
  rw [entry index [i, j] inside (.cons below (.cons within .nil)), ravel_pair, unravel_single]

theorem reshape_merge (shape : a.shape = lead ++ [rows, columns]) :
    ∃ c, a.reshape (lead ++ [rows * columns]) = some c ∧ c.shape = lead ++ [rows * columns] ∧
      ∀ index i, Inside lead index → i < rows * columns →
        c.entry (index ++ [i]) = a.entry (index ++ [i / columns, i % columns]) := by
  have same : [rows * columns].prod = [rows, columns].prod := by simp
  obtain ⟨c, reshaped, shapeC, entry⟩ := reshape_suffix shape same
  refine ⟨c, reshaped, shapeC, fun index i inside below => ?_⟩
  rw [entry index [i] inside (.cons below .nil), unravel_pair]
  simp [ravel]

end Pairs

end NdArray
