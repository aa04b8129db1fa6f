import NpuMatmul.FixedPoint.FittedExponents
import NpuMatmul.FixedPoint.RoundExact

set_option autoImplicit false

namespace NpuMatmul

open Loop Binary32

-- The exponent fit_exponent stores for n values, from their exponent fields alone.
def fittedExponent (n : Nat) (values : Nat → ℚ) : Int :=
  let maxBiased := (Finset.range n).sup fun i => biased (encode (values i))
  if 0 < maxBiased then maxBiased - 126 else -127

def average (n : Nat) (values : Nat → ℚ) : ℚ := (∑ i ∈ Finset.range n, values i) / n

theorem fittedExponent_field (n : Nat) (values : Nat → ℚ) :
    fittedExponent n values = fieldExponent n fun i => encode (values i) := rfl

theorem maxField_of_normal {n : Nat} {values : Nat → ℚ} (normal : -127 < fittedExponent n values) :
    0 < maxField n fun i => encode (values i) := by
  rw [fittedExponent_field, fieldExponent] at normal
  split at normal
  next positive => exact positive
  next => omega

theorem fittedExponent_upper {n : Nat} {values : Nat → ℚ}
    (finite : ∀ i < n, |values i| < 2 ^ 128) (normal : -127 < fittedExponent n values) :
    ∀ i < n, |values i| < 2 ^ fittedExponent n values := by
  intro i below
  have positive := maxField_of_normal normal
  have le := le_maxField (fun i => encode (values i)) below
  apply lt_of_lt_of_le (encode_lt_pow (finite i below))
  apply pow_le
  rw [fittedExponent_field, fieldExponent, if_pos positive]
  omega

theorem fittedExponent_lower {n : Nat} {values : Nat → ℚ}
    (finite : ∀ i < n, |values i| < 2 ^ 128) (normal : -127 < fittedExponent n values) :
    ∃ i < n, 2 ^ (fittedExponent n values - 1) ≤ |values i| := by
  have positive := maxField_of_normal normal
  obtain ⟨i, below, attained⟩ := maxField_attained positive
  rw [fittedExponent_field, fieldExponent, if_pos positive, ← attained]
  rw [← attained] at positive
  have large : (2 : ℚ) ^ (-126 : Int) ≤ |values i| := by
    by_contra small
    have zero := encode_subnormal (not_le.mp small)
    omega
  refine ⟨i, below, ?_⟩
  have shift : (biased (encode (values i)) : Int) - 126 - 1 =
      biased (encode (values i)) - 127 := by
    ring
  rw [shift]
  exact (biased_encode_bounds large (finite i below)).1

theorem abs_sum_lt {n : Nat} (positive : 0 < n) {values : Nat → ℚ} {bound : ℚ}
    (below : ∀ i < n, |values i| < bound) : |∑ i ∈ Finset.range n, values i| < n * bound := by
  calc |∑ i ∈ Finset.range n, values i| ≤ ∑ i ∈ Finset.range n, |values i| :=
        Finset.abs_sum_le_sum_abs _ _
    _ < ∑ _i ∈ Finset.range n, bound := by
        apply Finset.sum_lt_sum_of_nonempty (Finset.nonempty_range_iff.mpr (by omega))
        intro i member
        exact below i (Finset.mem_range.mp member)
    _ = n * bound := by simp

theorem abs_average_lt {n : Nat} (positive : 0 < n) {values : Nat → ℚ} {bound : ℚ}
    (below : ∀ i < n, |values i| < bound) : |average n values| < bound := by
  have total := abs_sum_lt positive below
  have size : (0 : ℚ) < n := by exact_mod_cast positive
  rw [average, abs_div, abs_of_pos size, div_lt_iff₀ size, mul_comm]
  exact total

section Exact

variable (host : Unspecified)

theorem zeroFloat_exact : zeroFloat (exact host) = 0 := by
  have field : biased 0#32 = 0 := by decide
  have part : fraction 0#32 = 0 := by decide
  simp [zeroFloat, exact, value, magnitude, significand, field, part]

theorem stats_exact (n : Nat) (values : Nat → ℚ) :
    forLoop n (fun i (stats : BlockStats ℚ) => stats.scan (exact host) (values i))
        (BlockStats.empty (exact host)) =
      { maxBiased := (Finset.range n).sup fun i => biased (encode (values i))
        blockSum := ∑ i ∈ Finset.range n, values i
        blockSumSquares := ∑ i ∈ Finset.range n, values i * values i
        blockN := n } := by
  induction n with
  | zero => simp [BlockStats.empty, zeroFloat_exact]
  | succ n ih =>
    rw [forLoop_succ, ih]
    have largest := scan_fields (exact host) (n + 1) values
    rw [forLoop_succ, ih] at largest
    simp only [BlockStats.scan, exact_add, exact_mul, Finset.sum_range_succ] at largest ⊢
    rw [largest]
    rfl

theorem blockStats_exponent (shape : BlockShape) (values : Nat → ℚ) (lane block : Nat) :
    (blockStats (exact host) shape values lane block).exponent =
      fittedExponent (shape.count block) fun offset => values (shape.element lane block offset) :=
  blockStats_fieldExponent (exact host) shape values lane block

theorem blockStats_mean (shape : BlockShape) (values : Nat → ℚ) (lane block : Nat) :
    (blockStats (exact host) shape values lane block).mean (exact host) =
      average (shape.count block) fun offset => values (shape.element lane block offset) := by
  rw [blockStats, stats_exact host _ fun offset => values (shape.element lane block offset)]
  unfold BlockStats.mean average
  by_cases empty : shape.count block = 0
  · simp [empty, zeroFloat_exact]
  · simp [Nat.pos_of_ne_zero empty]

end Exact

end NpuMatmul
