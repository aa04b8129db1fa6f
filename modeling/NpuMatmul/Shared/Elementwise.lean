import NpuMatmul.Shared.NdArray

set_option autoImplicit false

-- Operations entry by entry, with the operands broadcast to one shape.
namespace NdArray

open RowMajor

variable {R S Q : Type}

-- a op b
def combine (op : R → S → Q) (a : NdArray R) (b : NdArray S) : Option (NdArray Q) := do
  let shape ← broadcastShapes a.shape b.shape
  let a ← a.expand shape
  let b ← b.expand shape
  pure { shape := shape, entry := fun index => op (a.entry index) (b.entry index) }

-- a op= b, which leaves a its shape.
def update (op : R → S → Q) (a : NdArray R) (b : NdArray S) : Option (NdArray Q) :=
  (b.expand a.shape).map fun b =>
    { shape := a.shape, entry := fun index => op (a.entry index) (b.entry index) }

def map (f : R → Q) (a : NdArray R) : NdArray Q :=
  { shape := a.shape, entry := fun index => f (a.entry index) }

section Shapes

variable {shape other sizes : List Nat}

theorem broadcastSizes_fits {size other : Nat} (fits : size = other ∨ size = 1) :
    broadcastSizes size other = some other := by
  unfold broadcastSizes
  split_ifs <;> simp_all

theorem broadcastReversed_fits
    (fits : List.Forall₂ (fun size other => size = other ∨ size = 1) shape
      (sizes.take shape.length)) :
    broadcastReversed shape sizes = some sizes := by
  induction shape generalizing sizes with
  | nil => rfl
  | cons size shape ih =>
      cases sizes with
      | nil => cases fits
      | cons other sizes =>
          obtain ⟨first, rest⟩ := List.forall₂_cons.mp fits
          simp [broadcastReversed, broadcastSizes_fits first, ih rest]

theorem Expands.common (expands : Expands shape sizes) :
    broadcastShapes shape sizes = some sizes := by
  obtain ⟨ranks, fits⟩ := expands
  have reversed : List.Forall₂ (fun size other => size = other ∨ size = 1) shape.reverse
      (sizes.reverse.take shape.reverse.length) := by
    rw [List.length_reverse, ← List.forall₂_reverse_iff, List.reverse_reverse, List.reverse_take]
    simpa using fits
  rw [broadcastShapes, broadcastReversed_fits reversed, Option.map_some, List.reverse_reverse]

theorem broadcastShapes_self (shape : List Nat) : broadcastShapes shape shape = some shape :=
  (expands_refl shape).common

theorem expands_append (lead shape : List Nat) : Expands shape (lead ++ shape) := by
  refine ⟨by simp, ?_⟩
  simp [List.forall₂_same]

theorem project_suffix {index rest : List Nat} (inside : Inside shape rest) :
    project shape (index ++ rest) = rest := by
  have whole : project ([] ++ shape) (index ++ rest) = project [] index ++ rest :=
    project_append inside (Nat.zero_le _)
  simpa [project] using whole

end Shapes

section Entries

variable {a : NdArray R} {b : NdArray S} {sizes : List Nat} (op : R → S → Q)

theorem combine_entry (common : broadcastShapes a.shape b.shape = some sizes) :
    ∃ c, a.combine op b = some c ∧ c.shape = sizes ∧ ∀ index,
      c.entry index = op (a.entry (project a.shape index)) (b.entry (project b.shape index)) := by
  obtain ⟨d, expanded, _, entry⟩ := expand_entry (a := a) (expands_common common)
  rw [broadcastShapes_comm] at common
  obtain ⟨e, expandedB, _, entryB⟩ := expand_entry (a := b) (expands_common common)
  rw [broadcastShapes_comm] at common
  have combined : a.combine op b =
      some { shape := sizes, entry := fun index => op (d.entry index) (e.entry index) } := by
    simp [combine, common, expanded, expandedB]
  refine ⟨_, combined, rfl, fun index => ?_⟩
  simp only [entry, entryB]

theorem combine_same (same : a.shape = b.shape) :
    ∃ c, a.combine op b = some c ∧ c.shape = b.shape ∧
      ∀ index, Inside b.shape index → c.entry index = op (a.entry index) (b.entry index) := by
  have common : broadcastShapes a.shape b.shape = some b.shape := by
    rw [same, broadcastShapes_self]
  obtain ⟨c, combined, shape, entry⟩ := combine_entry op common
  refine ⟨c, combined, shape, fun index inside => ?_⟩
  rw [entry, same, project_inside inside]

theorem combine_suffix {lead shape : List Nat} (left : a.shape = lead ++ shape)
    (right : b.shape = shape) :
    ∃ c, a.combine op b = some c ∧ c.shape = lead ++ shape ∧
      ∀ index rest, Inside lead index → Inside shape rest →
        c.entry (index ++ rest) = op (a.entry (index ++ rest)) (b.entry rest) := by
  have expands : Expands b.shape a.shape := by
    rw [left, right]
    exact expands_append lead shape
  have common : broadcastShapes a.shape b.shape = some a.shape := by
    rw [broadcastShapes_comm, expands.common]
  obtain ⟨c, combined, shapeC, entry⟩ := combine_entry op common
  refine ⟨c, combined, shapeC.trans left, fun index rest inside insideRest => ?_⟩
  have whole : project a.shape (index ++ rest) = index ++ rest :=
    project_inside (left ▸ inside.append insideRest)
  rw [entry, whole, project_suffix (right ▸ insideRest)]

theorem update_entry (expands : Expands b.shape a.shape) :
    ∃ c, a.update op b = some c ∧ c.shape = a.shape ∧
      ∀ index, c.entry index = op (a.entry index) (b.entry (project b.shape index)) := by
  obtain ⟨d, expanded, _, entry⟩ := expand_entry expands
  have updated : a.update op b =
      some { shape := a.shape, entry := fun index => op (a.entry index) (d.entry index) } := by
    rw [update, expanded, Option.map_some]
  refine ⟨_, updated, rfl, fun index => ?_⟩
  simp only [entry]

end Entries

end NdArray
