import Mathlib.Data.List.Pairwise

set_option autoImplicit false

namespace Tiling

-- Consecutive extents, each an address and a length, that cover start to stop without a gap.
def Tiles (start stop : Nat) : List (Nat × Nat) → Prop
  | [] => start = stop
  | extent :: rest => extent.1 = start ∧ Tiles (start + extent.2) stop rest

theorem tiles_append {start stop : Nat} {left right : List (Nat × Nat)} :
    Tiles start stop (left ++ right) ↔
      ∃ middle, Tiles start middle left ∧ Tiles middle stop right := by
  induction left generalizing start with
  | nil => simp [Tiles]
  | cons extent rest ih =>
    simp only [List.cons_append, Tiles, ih]
    constructor
    · rintro ⟨address, middle, covered, remaining⟩
      exact ⟨middle, ⟨address, covered⟩, remaining⟩
    · rintro ⟨middle, ⟨address, covered⟩, remaining⟩
      exact ⟨address, middle, covered, remaining⟩

theorem Tiles.le {start stop : Nat} {extents : List (Nat × Nat)}
    (tiles : Tiles start stop extents) : start ≤ stop := by
  induction extents generalizing start with
  | nil => exact Nat.le_of_eq tiles
  | cons extent rest ih =>
    have bound := ih tiles.2
    omega

theorem Tiles.inside {start stop : Nat} {extents : List (Nat × Nat)}
    (tiles : Tiles start stop extents) {extent : Nat × Nat} (member : extent ∈ extents) :
    start ≤ extent.1 ∧ extent.1 + extent.2 ≤ stop := by
  induction extents generalizing start with
  | nil => simp at member
  | cons head rest ih =>
    obtain ⟨address, covered⟩ := tiles
    rcases List.mem_cons.mp member with rfl | later
    · have bound := Tiles.le covered
      omega
    · have bound := ih covered later
      omega

def Apart (left right : Nat × Nat) : Prop :=
  left.1 + left.2 ≤ right.1 ∨ right.1 + right.2 ≤ left.1

instance : Std.Symm Apart := ⟨fun _ _ apart => Or.symm apart⟩

theorem Tiles.ordered {start stop : Nat} {extents : List (Nat × Nat)}
    (tiles : Tiles start stop extents) :
    extents.Pairwise fun left right => left.1 + left.2 ≤ right.1 := by
  induction extents generalizing start with
  | nil => exact List.Pairwise.nil
  | cons extent rest ih =>
    obtain ⟨address, covered⟩ := tiles
    refine List.Pairwise.cons ?_ (ih covered)
    intro other member
    have bound := Tiles.inside covered member
    omega

theorem Tiles.apart {start stop : Nat} {extents : List (Nat × Nat)}
    (tiles : Tiles start stop extents) {left right : Nat × Nat} (leftMember : left ∈ extents)
    (rightMember : right ∈ extents) (different : left ≠ right) : Apart left right := by
  have pairwise : extents.Pairwise Apart := tiles.ordered.imp Or.inl
  exact pairwise.forall leftMember rightMember different

theorem Tiles.nodup {start stop : Nat} {extents : List (Nat × Nat)}
    (tiles : Tiles start stop extents) (positive : ∀ extent ∈ extents, 0 < extent.2) :
    (extents.map Prod.fst).Nodup := by
  induction extents generalizing start with
  | nil => exact List.nodup_nil
  | cons extent rest ih =>
    obtain ⟨address, covered⟩ := tiles
    have length := positive extent (by simp)
    refine List.nodup_cons.mpr ⟨?_, ih covered fun other member => positive other (by simp [member])⟩
    intro member
    obtain ⟨other, otherMember, same⟩ := List.mem_map.mp member
    have bound := Tiles.inside covered otherMember
    omega

theorem Tiles.length_le {start stop : Nat} {extents : List (Nat × Nat)} (unit : Nat)
    (tiles : Tiles start stop extents) (large : ∀ extent ∈ extents, unit ≤ extent.2) :
    start + unit * extents.length ≤ stop := by
  induction extents generalizing start with
  | nil => exact Nat.le_of_eq tiles
  | cons extent rest ih =>
    obtain ⟨-, covered⟩ := tiles
    have bound := ih covered fun other member => large other (by simp [member])
    have length := large extent (by simp)
    simp only [List.length_cons, Nat.mul_succ]
    omega

end Tiling
