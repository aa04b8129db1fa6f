import Mathlib.Tactic.NormNum.Prime
import NpuMatmul.FixedPoint.RoundFaithful
import NpuMatmul.Shared.WordPolynomials

set_option autoImplicit false

namespace NpuMatmul

open Binary32 Function WordPolynomials

section Period

theorem shiftLeft_additive (n : Nat) : Additive fun state : BitVec 32 => state ^^^ state <<< n := by
  intro a b
  simp only [BitVec.shiftLeft_xor_distrib]
  ac_rfl

theorem shiftRight_additive (n : Nat) : Additive fun state : BitVec 32 => state ^^^ state >>> n := by
  intro a b
  simp only [BitVec.ushiftRight_xor_distrib]
  ac_rfl

theorem xorshift32_additive : Additive xorshift32 :=
  (shiftLeft_additive 5).comp ((shiftRight_additive 17).comp (shiftLeft_additive 13))

-- x^32 + x^21 + x^20 + x^19 + x^18 + x^17 + x^15 + x^14 + x^9 + x^6 + 1.
def xorshiftModulus : Nat := 0x1003ec241

theorem xorshiftModulus_annihilates (v : BitVec 32) :
    act xorshift32 33 xorshiftModulus v = 0#32 := by
  apply additive_zero (act_additive xorshift32_additive 33 xorshiftModulus)
  decide +kernel

theorem xorshiftModulus_low : 2 ^ 32 ≤ xorshiftModulus := by decide

theorem xorshiftModulus_high : xorshiftModulus < 2 ^ 33 := by decide

def stepsPolynomial (n : Nat) : Nat := power 32 xorshiftModulus 2 32 n

theorem act_steps {n : Nat} (short : n < 2 ^ 32) (v : BitVec 32) :
    act xorshift32 32 (stepsPolynomial n) v = xorshift32^[n] v := by
  have one : act xorshift32 32 2 = xorshift32 := funext act_x
  rw [stepsPolynomial, act_power xorshift32_additive xorshiftModulus_low xorshiftModulus_high
    xorshiftModulus_annihilates (by decide) (by decide) short, one]

theorem wholePeriod_one : stepsPolynomial (2 ^ 32 - 1) = 1 := by decide +kernel

theorem partPeriod_invertible : ∀ q ∈ [3, 5, 17, 257, 65537],
    power 32 xorshiftModulus (stepsPolynomial ((2 ^ 32 - 1) / q) ^^^ 1) 32 (2 ^ 32 - 1) = 1 := by
  decide +kernel

variable {seed : BitVec 32}

theorem xorshift32_returns (seed : BitVec 32) : xorshift32^[2 ^ 32 - 1] seed = seed := by
  rw [← act_steps (by decide), wholePeriod_one]
  exact act_one seed

theorem xorshift32_moves {q : Nat} (part : q ∈ [3, 5, 17, 257, 65537]) (other : seed ≠ 0#32) :
    xorshift32^[(2 ^ 32 - 1) / q] seed ≠ seed := by
  intro stays
  let moved := stepsPolynomial ((2 ^ 32 - 1) / q) ^^^ 1
  have short : (2 ^ 32 - 1) / q < 2 ^ 32 := (Nat.div_le_self _ _).trans_lt (by decide)
  have steps : stepsPolynomial ((2 ^ 32 - 1) / q) < 2 ^ 32 :=
    power_lt xorshiftModulus_low xorshiftModulus_high (by decide) (by decide) 32 _
  have small : moved < 2 ^ 32 := Nat.xor_lt_two_pow steps (by decide)
  have none : act xorshift32 32 moved seed = 0#32 := by
    have one : act xorshift32 32 1 seed = seed := act_one seed
    rw [act_xor, act_steps short, stays, one, BitVec.xor_self]
  have inverse := act_power xorshift32_additive xorshiftModulus_low xorshiftModulus_high
    xorshiftModulus_annihilates (by decide) small (by decide : 2 ^ 32 - 1 < 2 ^ 32) seed
  have kept : (act xorshift32 32 moved)^[2 ^ 32 - 2] 0#32 = 0#32 :=
    iterate_fixed (step_zero (act_additive xorshift32_additive 32 moved)) _
  have split : 2 ^ 32 - 1 = 2 ^ 32 - 2 + 1 := rfl
  rw [partPeriod_invertible q part, split, iterate_succ_apply, none, kept] at inverse
  have one : act xorshift32 32 1 seed = seed := act_one seed
  exact other (one.symm.trans inverse)

theorem prime_parts {q : Nat} (prime : q.Prime) (divides : q ∣ 2 ^ 32 - 1) :
    q ∈ [3, 5, 17, 257, 65537] := by
  have parts : 2 ^ 32 - 1 = 3 * (5 * (17 * (257 * 65537))) := by decide
  rw [parts] at divides
  have is {p : Nat} (factor : p.Prime) (divides : q ∣ p) : q = p :=
    (Nat.prime_dvd_prime_iff_eq prime factor).mp divides
  rcases prime.dvd_mul.mp divides with three | rest
  · simp [is (by norm_num) three]
  rcases prime.dvd_mul.mp rest with five | rest
  · simp [is (by norm_num) five]
  rcases prime.dvd_mul.mp rest with seventeen | rest
  · simp [is (by norm_num) seventeen]
  rcases prime.dvd_mul.mp rest with middle | last
  · simp [is (by norm_num) middle]
  · simp [is (by norm_num) last]

theorem xorshift32_period (other : seed ≠ 0#32) : minimalPeriod xorshift32 seed = 2 ^ 32 - 1 :=
  minimalPeriod_eq (xorshift32_returns seed) fun _ prime divides =>
    xorshift32_moves (prime_parts prime divides) other

theorem xorshift32_injective : Injective xorshift32 := by
  have inverse : LeftInverse (xorshift32^[2 ^ 32 - 2]) xorshift32 := by
    intro seed
    rw [← iterate_succ_apply]
    exact xorshift32_returns seed
  exact inverse.injective

theorem xorshift32_nonzero (other : seed ≠ 0#32) (k : Nat) : xorshift32^[k] seed ≠ 0#32 := by
  intro zero
  have fixed : xorshift32^[k] 0#32 = 0#32 := iterate_fixed (step_zero xorshift32_additive) k
  exact other (xorshift32_injective.iterate k (zero.trans fixed.symm))

end Period

section Streams

-- The generator that an element is rounded with, and which of its draws that is.
def generatorOf (arraySize index : Nat) : Nat := if index < arraySize / 4 * 4 then index % 4 else 0

def drawOf (arraySize index : Nat) : Nat :=
  if index < arraySize / 4 * 4 then index / 4 + 1
  else arraySize / 4 + (index - arraySize / 4 * 4 + 1)

theorem advance_randomNoises (generators : Generators) (k j : Nat) :
    ((Generators.advance^[k]) generators).randomNoises j =
      xorshift32^[k] (generators.randomNoises j) := by
  induction k generalizing generators with
  | zero => rfl
  | succ k ih =>
      rw [iterate_succ_apply, ih, iterate_succ_apply]
      unfold Generators.randomNoises
      split <;> rfl

theorem elementNoise_draw (arraySize index : Nat) :
    elementNoise arraySize index =
      xorshift32^[drawOf arraySize index]
        (Generators.seeds.randomNoises (generatorOf arraySize index)) := by
  unfold elementNoise drawOf generatorOf
  split
  · exact advance_randomNoises _ _ _
  · have first := advance_randomNoises .seeds (arraySize / 4) 0
    change ((Generators.advance^[arraySize / 4]) .seeds).r0 = _ at first
    rw [first, ← iterate_add_apply, Nat.add_comm]

theorem seeds_nonzero (j : Nat) : Generators.seeds.randomNoises j ≠ 0#32 := by
  unfold Generators.randomNoises
  split <;> decide

theorem seeds_apart {i j : Nat} (below : i < 4) (below' : j < 4) (other : i ≠ j) :
    Generators.seeds.randomNoises i ≠ Generators.seeds.randomNoises j := by
  have all : ∀ i < 4, ∀ j < 4, i ≠ j →
      Generators.seeds.randomNoises i ≠ Generators.seeds.randomNoises j := by decide
  exact all i below j below' other

theorem draws_apart {arraySize index other : Nat} (counted : arraySize < 2 ^ 31)
    (below : index < arraySize) (below' : other < arraySize) (apart : index ≠ other)
    (same : generatorOf arraySize index = generatorOf arraySize other) :
    elementNoise arraySize index ≠ elementNoise arraySize other := by
  have draws : drawOf arraySize index ≠ drawOf arraySize other ∧
      drawOf arraySize index < 2 ^ 32 - 1 ∧ drawOf arraySize other < 2 ^ 32 - 1 := by
    unfold drawOf
    unfold generatorOf at same
    split at same <;> split at same <;> simp only [*, if_true, if_false] <;> omega
  have period := xorshift32_period (seeds_nonzero (generatorOf arraySize index))
  rw [elementNoise_draw, elementNoise_draw, ← same]
  intro equal
  rw [iterate_eq_iterate_iff_of_lt_minimalPeriod (by rw [period]; exact draws.2.1)
    (by rw [period]; exact draws.2.2)] at equal
  exact draws.1 equal

theorem group_apart {arraySize group i j : Nat} (grouped : group < arraySize / 4) (below : i < 4)
    (below' : j < 4) (other : i ≠ j) :
    elementNoise arraySize (4 * group + i) ≠ elementNoise arraySize (4 * group + j) := by
  have draw {i : Nat} (below : i < 4) : elementNoise arraySize (4 * group + i) =
      xorshift32^[group + 1] (Generators.seeds.randomNoises i) := by
    have inside : 4 * group + i < arraySize / 4 * 4 := by omega
    rw [elementNoise_draw, drawOf, generatorOf, if_pos inside, if_pos inside,
      Nat.mul_add_mod, Nat.mod_eq_of_lt below, Nat.mul_add_div (by decide),
      Nat.div_eq_of_lt below, Nat.add_zero]
  rw [draw below, draw below']
  intro equal
  exact seeds_apart below below' other (xorshift32_injective.iterate (group + 1) equal)

-- A generator goes through all words but 0 before it repeats one, so that no two elements of an
-- array that one of them serves have the same noise, nor the four of a group, and none has 0.
theorem noise_streams :
    (∀ seed : BitVec 32, seed ≠ 0#32 → minimalPeriod xorshift32 seed = 2 ^ 32 - 1 ∧
      ∀ word : BitVec 32, word ≠ 0#32 → ∃ k < 2 ^ 32 - 1, xorshift32^[k] seed = word) ∧
    (∀ arraySize < 2 ^ 31, ∀ index < arraySize, ∀ other < arraySize, index ≠ other →
      generatorOf arraySize index = generatorOf arraySize other →
      elementNoise arraySize index ≠ elementNoise arraySize other) ∧
    (∀ arraySize, ∀ group < arraySize / 4, ∀ i < 4, ∀ j < 4, i ≠ j →
      elementNoise arraySize (4 * group + i) ≠ elementNoise arraySize (4 * group + j)) ∧
    ∀ arraySize index, elementNoise arraySize index ≠ 0#32 := by
  refine ⟨fun seed other => ?_, fun arraySize counted index below other below' apart same =>
    draws_apart counted below below' apart same,
    fun arraySize group grouped i below j below' other => group_apart grouped below below' other,
    fun arraySize index => ?_⟩
  · have period := xorshift32_period other
    exact ⟨period, fun word => orbit_all (xorshift32_nonzero other) period⟩
  · rw [elementNoise_draw]
    exact xorshift32_nonzero (seeds_nonzero _) _

end Streams

section Unbiased

variable {F : Type} (fp : FloatArith F) {width precision : Nat}

theorem sum_residues (parts n : Nat) (f : Nat → Int) :
    ∑ w ∈ Finset.range (parts * n), f (w % n) = parts * ∑ r ∈ Finset.range n, f r := by
  induction parts with
  | zero => simp
  | succ parts ih =>
      have shifted : ∀ r ∈ Finset.range n, f ((parts * n + r) % n) = f r := by
        intro r member
        rw [Nat.mul_comm, Nat.mul_add_mod, Nat.mod_eq_of_lt (Finset.mem_range.mp member)]
      rw [Nat.succ_mul, Finset.sum_range_add, ih, Finset.sum_congr rfl shifted]
      push_cast
      ring

-- Over a whole period of a generator the results for one element add up to its scaled magnitude
-- times the noises of each kind, less the one result of the noise 0, which no generator draws.
theorem period_unbiased (positive : 0 < width) (least : 1 ≤ precision) (most : precision ≤ 31)
    {x : F} (inputs : Roundable (fp.toBits x) precision)
    (fits : ∀ noise : BitVec 32, Representable width (fp.toBits x) precision noise)
    {seed : BitVec 32} (other : seed ≠ 0#32) :
    ∑ k ∈ Finset.range (2 ^ 32 - 1),
      (processSingleStochasticRound fp width x (xorshift32^[k] seed) precision
        (1#32 <<< precision - 1#32)).value.toInt =
      withSign (fp.toBits x) (2 ^ (32 - precision) * scaledFloor (fp.toBits x) precision) -
        withSign (fp.toBits x) (integerPart (fp.toBits x)) := by
  have kept := xorshift32_nonzero other
  obtain ⟨injective, words⟩ := orbit_words kept (xorshift32_period other)
  let result := fun noise : Nat =>
    withSign (fp.toBits x) ((scaledFloor (fp.toBits x) precision + noise) / 2 ^ precision)
  have drawn : ∀ k ∈ Finset.range (2 ^ 32 - 1),
      (processSingleStochasticRound fp width x (xorshift32^[k] seed) precision
        (1#32 <<< precision - 1#32)).value.toInt =
      result ((xorshift32^[k] seed).toNat % 2 ^ precision) := by
    intro k _
    rw [process_toInt fp positive least most inputs (fits _), roundingCarry_parts]
  have kinds : 2 ^ 32 = 2 ^ (32 - precision) * 2 ^ precision := by
    rw [← Nat.pow_add]
    congr 1
    omega
  have all : ∑ w ∈ Finset.range (2 ^ 32), result (w % 2 ^ precision) =
      2 ^ (32 - precision) * withSign (fp.toBits x) (scaledFloor (fp.toBits x) precision) := by
    rw [kinds, sum_residues, sum_withSign, sum_carries _ (Nat.two_pow_pos precision)]
    push_cast
    rfl
  have zero : 0 ∈ Finset.range (2 ^ 32) := Finset.mem_range.mpr (Nat.two_pow_pos 32)
  have split := Finset.sum_erase_add (Finset.range (2 ^ 32))
    (fun w => result (w % 2 ^ precision)) zero
  have none : result (0 % 2 ^ precision) = withSign (fp.toBits x) (integerPart (fp.toBits x)) := by
    simp only [result, Nat.zero_mod, Nat.add_zero, scaledFloor_div]
  have scaled : withSign (fp.toBits x)
      (2 ^ (32 - precision) * scaledFloor (fp.toBits x) precision) =
      2 ^ (32 - precision) * withSign (fp.toBits x) (scaledFloor (fp.toBits x) precision) := by
    unfold withSign
    split <;> push_cast <;> ring
  rw [Finset.sum_congr rfl drawn, scaled, ← all, ← split, none, ← words,
    Finset.sum_image fun i below j below' same => injective below below' same]
  ring

theorem period_unbiased_sample :
    ∑ k ∈ Finset.range (2 ^ 32 - 1),
      (processSingleStochasticRound (hostFloat default) 8 (roundSample 1)
        (xorshift32^[k] Generators.seeds.r0) 8 (1#32 <<< 8 - 1#32)).value.toInt =
      withSign (word (roundSample 1))
          (2 ^ 24 * scaledFloor (word (roundSample 1)) 8) -
        withSign (word (roundSample 1))
          (integerPart (word (roundSample 1))) := by
  have inputs : Roundable ((hostFloat default).toBits (roundSample 1)) 8 :=
    (roundSample_inputs 0).1
  exact period_unbiased (hostFloat default) (by decide : 0 < 8) (by decide : 1 ≤ 8) (by decide)
    inputs (fun noise => (roundSample_inputs noise).2) (seeds_nonzero 0)

end Unbiased

end NpuMatmul
