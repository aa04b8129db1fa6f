import Mathlib.Data.Finset.Lattice.Fold
import Mathlib.Order.Lattice.Nat
import NpuMatmul.FixedPoint.BlockSpec
import NpuMatmul.FixedPoint.RoundBits

set_option autoImplicit false

namespace NpuMatmul

open Loop Binary32

def maxField (n : Nat) (bits : Nat → BitVec 32) : Nat :=
  (Finset.range n).sup fun i => biased (bits i)

-- The exponent fit_exponent stores for n words.
def fieldExponent (n : Nat) (bits : Nat → BitVec 32) : Int :=
  if 0 < maxField n bits then maxField n bits - 126 else -127

theorem le_maxField {n i : Nat} (bits : Nat → BitVec 32) (below : i < n) :
    biased (bits i) ≤ maxField n bits :=
  Finset.le_sup (f := fun i => biased (bits i)) (Finset.mem_range.mpr below)

theorem maxField_attained {n : Nat} {bits : Nat → BitVec 32} (positive : 0 < maxField n bits) :
    ∃ i < n, biased (bits i) = maxField n bits := by
  have nonempty : (Finset.range n).Nonempty := by
    by_contra empty
    simp [maxField, Finset.not_nonempty_iff_eq_empty.mp empty] at positive
  obtain ⟨i, member, attained⟩ := Finset.exists_mem_eq_sup _ nonempty fun i => biased (bits i)
  exact ⟨i, Finset.mem_range.mp member, attained.symm⟩

theorem maxField_lt {n : Nat} {bits : Nat → BitVec 32} (finite : ∀ i < n, biased (bits i) ≠ 255) :
    maxField n bits < 255 := by
  apply (Finset.sup_lt_iff (by decide)).mpr
  intro i member
  have below := biased_lt (bits i)
  have here := finite i (Finset.mem_range.mp member)
  omega

theorem fieldExponent_range {n : Nat} {bits : Nat → BitVec 32}
    (finite : ∀ i < n, biased (bits i) ≠ 255) :
    -127 ≤ fieldExponent n bits ∧ fieldExponent n bits ≤ 128 := by
  have below := maxField_lt finite
  unfold fieldExponent
  split <;> omega

theorem abs_value_lt_pow (bits : BitVec 32) :
    |value bits| < 2 ^ (((max (biased bits) 1 : Nat) : Int) - 126) := by
  have part : (significand bits : ℚ) < 2 ^ (24 : Int) := by exact_mod_cast significand_lt bits
  have scale := pow_pos' (((max (biased bits) 1 : Nat) : Int) - 150)
  have split : ((max (biased bits) 1 : Nat) : Int) - 126 =
      24 + (((max (biased bits) 1 : Nat) : Int) - 150) := by ring
  rw [abs_value, magnitude, split, pow_split]
  gcongr

theorem abs_value_subnormal {bits : BitVec 32} (subnormal : biased bits = 0) :
    |value bits| < 2 ^ (-126 : Int) := by
  have part : (fraction bits : ℚ) < 2 ^ (23 : Int) := by exact_mod_cast fraction_lt bits
  rw [abs_value, magnitude, significand, if_pos subnormal, subnormal]
  calc (fraction bits : ℚ) * 2 ^ ((max 0 1 : Nat) - 150 : Int)
      < 2 ^ (23 : Int) * 2 ^ ((max 0 1 : Nat) - 150 : Int) := by gcongr
    _ = 2 ^ (-126 : Int) := by rw [← pow_split]; rfl

theorem fieldExponent_upper {n : Nat} {bits : Nat → BitVec 32} (normal : 0 < maxField n bits)
    {i : Nat} (below : i < n) : |value (bits i)| < 2 ^ fieldExponent n bits := by
  have le := le_maxField bits below
  apply lt_of_lt_of_le (abs_value_lt_pow (bits i))
  apply pow_le
  rw [fieldExponent, if_pos normal]
  omega

theorem fieldExponent_lower {n : Nat} {bits : Nat → BitVec 32} (normal : 0 < maxField n bits) :
    ∃ i < n, 2 ^ (fieldExponent n bits - 1) ≤ |value (bits i)| := by
  obtain ⟨i, below, attained⟩ := maxField_attained normal
  have shift : (maxField n bits : Int) - 126 - 1 = (biased (bits i) : Int) - 127 := by omega
  refine ⟨i, below, ?_⟩
  rw [fieldExponent, if_pos normal, abs_value, shift]
  exact (magnitude_bounds (by omega)).1

section Code

variable {F : Type} (fp : FloatArith F)

theorem biasedExponent_field (val : F) : biasedExponent fp val = biased (fp.toBits val) :=
  exponentBits_toNat (fp.toBits val)

theorem scan_fields (n : Nat) (values : Nat → F) :
    (forLoop n (fun i (stats : BlockStats F) => stats.scan fp (values i))
        (BlockStats.empty fp)).maxBiased = maxField n fun i => fp.toBits (values i) := by
  induction n with
  | zero => rfl
  | succ n ih =>
    rw [forLoop_succ, BlockStats.scan]
    simp only [ih, biasedExponent_field, maxField]
    rw [Finset.range_add_one, Finset.sup_insert]
    split
    · rw [sup_eq_left.mpr (by omega)]
    · rw [sup_eq_right.mpr (by omega)]

theorem blockStats_fieldExponent (shape : BlockShape) (values : Nat → F) (lane block : Nat) :
    (blockStats fp shape values lane block).exponent =
      fieldExponent (shape.count block) fun offset =>
        fp.toBits (values (shape.element lane block offset)) := by
  have fields := scan_fields fp (shape.count block) fun offset =>
    values (shape.element lane block offset)
  rw [BlockStats.exponent, blockStats, fields, fieldExponent]
  split <;> omega

end Code

end NpuMatmul
