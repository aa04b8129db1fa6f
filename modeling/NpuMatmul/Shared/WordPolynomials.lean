import Mathlib.Data.Finset.Card
import Mathlib.Data.Nat.Bitwise
import Mathlib.Data.Nat.Prime.Basic
import Mathlib.Dynamics.PeriodicPts.Defs
import Mathlib.Tactic.Ring

set_option autoImplicit false

-- Polynomials with coefficients 0 and 1, a bit each, that act on words through a map which respects
-- exclusive or. Taking them modulo one that sends every word to 0 changes nothing, so that a power
-- of the map costs as many products as its exponent has bits.
namespace WordPolynomials

variable {width : Nat}

def Additive (step : BitVec width → BitVec width) : Prop :=
  ∀ a b, step (a ^^^ b) = step a ^^^ step b

theorem Additive.comp {outer inner : BitVec width → BitVec width} (first : Additive outer)
    (second : Additive inner) : Additive fun v => outer (inner v) := by
  intro a b
  simp only [second a b]
  exact first (inner a) (inner b)

section Code

def act (step : BitVec width → BitVec width) : Nat → Nat → BitVec width → BitVec width
  | 0, _, _ => 0#(width)
  | n + 1, p, v => (if p % 2 = 1 then v else 0#(width)) ^^^ act step n (p / 2) (step v)

variable (degree modulus : Nat)

def timesX (p : Nat) : Nat := if 2 * p < 2 ^ degree then 2 * p else 2 * p ^^^ modulus

def times : Nat → Nat → Nat → Nat
  | 0, _, _ => 0
  | n + 1, q, p => (q % 2 * p) ^^^ timesX degree modulus (times n (q / 2) p)

def power (p : Nat) : Nat → Nat → Nat
  | 0, _ => 1
  | bits + 1, n =>
      let half := power p bits (n / 2)
      let square := times degree modulus degree half half
      if n % 2 = 1 then times degree modulus degree p square else square

end Code

section Action

variable {step : BitVec width → BitVec width} (additive : Additive step)

include additive

theorem step_zero : step 0#(width) = 0#(width) := by
  have twice := additive 0#(width) 0#(width)
  simpa using twice

theorem act_step (n p : Nat) (v : BitVec width) :
    act step n p (step v) = step (act step n p v) := by
  induction n generalizing p v with
  | zero => exact (step_zero additive).symm
  | succ n ih =>
      simp only [act, ih]
      split
      · exact (additive _ _).symm
      · simp

theorem act_additive (n p : Nat) : Additive (act step n p) := by
  induction n generalizing p with
  | zero => simp [Additive, act]
  | succ n ih =>
      intro a b
      simp only [act, additive a b, ih (p / 2) (step a) (step b)]
      split
      · ac_rfl
      · simp

omit additive in
theorem act_xor (n p q : Nat) (v : BitVec width) :
    act step n (p ^^^ q) v = act step n p v ^^^ act step n q v := by
  induction n generalizing p q v with
  | zero => simp [act]
  | succ n ih =>
      have halves : (p ^^^ q) / 2 = p / 2 ^^^ q / 2 := Nat.xor_div_two
      simp only [act, halves, ih, Nat.xor_mod_two_eq_one]
      by_cases odd : p % 2 = 1 <;> by_cases odd' : q % 2 = 1 <;> simp [odd, odd']
      · rw [← BitVec.xor_assoc, BitVec.xor_assoc v, BitVec.xor_comm _ v, ← BitVec.xor_assoc]
        simp
      · ac_rfl
      · ac_rfl

omit additive in
theorem act_double (n p : Nat) (v : BitVec width) :
    act step (n + 1) (2 * p) v = act step n p (step v) := by
  simp [act]

omit additive in
@[simp] theorem act_none (n : Nat) (v : BitVec width) : act step n 0 v = 0#(width) := by
  induction n generalizing v with
  | zero => rfl
  | succ n ih => simp [act, ih]

omit additive in
theorem act_widen {n p : Nat} (small : p < 2 ^ n) (v : BitVec width) :
    act step (n + 1) p v = act step n p v := by
  induction n generalizing p v with
  | zero =>
      have none : p = 0 := by simpa using small
      simp [none]
  | succ n ih =>
      have half : p / 2 < 2 ^ n := by omega
      rw [act, ih half]
      rfl

omit additive in
@[simp] theorem act_one {n : Nat} (v : BitVec width) : act step (n + 1) 1 v = v := by
  simp [act]

omit additive in
theorem act_x {n : Nat} (v : BitVec width) : act step (n + 2) 2 v = step v := by
  simp [act]

theorem additive_zero (single : ∀ i < width, step (1#(width) <<< i) = 0#(width)) (v : BitVec width) :
    step v = 0#(width) := by
  have low : ∀ k ≤ width, ∀ v : BitVec width, v.toNat < 2 ^ k → step v = 0#(width) := by
    intro k
    induction k with
    | zero =>
        intro _ v below
        have none : v = 0#(width) := BitVec.eq_of_toNat_eq (by simpa using below)
        rw [none, step_zero additive]
    | succ k ih =>
        intro inside v below
        by_cases short : v.toNat < 2 ^ k
        · exact ih (Nat.le_of_succ_le inside) v short
        · have bit : (1#(width) <<< k).toNat = 2 ^ k := by
            have power : 2 ^ k < 2 ^ width := Nat.pow_lt_pow_right (by decide) inside
            have one : 1 < 2 ^ width := Nat.one_lt_two_pow (by omega)
            rw [BitVec.toNat_shiftLeft, BitVec.toNat_ofNat, Nat.mod_eq_of_lt one,
              Nat.shiftLeft_eq, Nat.one_mul, Nat.mod_eq_of_lt power]
          have rest : (v ^^^ 1#(width) <<< k).toNat < 2 ^ k := by
            rw [BitVec.toNat_xor, bit]
            apply Nat.lt_pow_two_of_testBit
            intro i above
            rw [Nat.testBit_xor, Nat.testBit_two_pow]
            rcases Nat.eq_or_lt_of_le above with rfl | beyond
            · have set : v.toNat.testBit k = true := by
                rw [Nat.testBit_eq_decide_div_mod_eq]
                have quotient : v.toNat / 2 ^ k = 1 := by
                  apply Nat.div_eq_of_lt_le <;> omega
                simp [quotient]
              simp [set]
            · have clear : v.toNat.testBit i = false :=
                Nat.testBit_lt_two_pow (below.trans_le (Nat.pow_le_pow_right (by decide) beyond))
              have other : k ≠ i := by omega
              simp [clear, other]
          have split : v = (v ^^^ 1#(width) <<< k) ^^^ 1#(width) <<< k := by
            rw [BitVec.xor_assoc, BitVec.xor_self, BitVec.xor_zero]
          rw [split, additive, ih (Nat.le_of_succ_le inside) _ rest, single k inside]
          simp
  exact low width le_rfl v v.isLt

section Modulus

variable {degree modulus : Nat} (low : 2 ^ degree ≤ modulus) (high : modulus < 2 ^ (degree + 1))
  (annihilates : ∀ v, act step (degree + 1) modulus v = 0#(width))

omit additive in
include low high in
theorem timesX_lt {p : Nat} (small : p < 2 ^ degree) : timesX degree modulus p < 2 ^ degree := by
  unfold timesX
  split
  next short => exact short
  next long =>
    apply Nat.lt_pow_two_of_testBit
    intro i above
    have top {a : Nat} (least : 2 ^ degree ≤ a) (below : a < 2 ^ (degree + 1)) :
        a.testBit i = decide (i = degree) := by
      rcases Nat.eq_or_lt_of_le above with rfl | beyond
      · rw [Nat.testBit_eq_decide_div_mod_eq]
        have quotient : a / 2 ^ degree = 1 := by
          apply Nat.div_eq_of_lt_le <;> omega
        simp [quotient]
      · have clear : a.testBit i = false :=
          Nat.testBit_lt_two_pow (below.trans_le (Nat.pow_le_pow_right (by decide) beyond))
        have other : ¬ i = degree := by omega
        simp [clear, other]
    rw [Nat.testBit_xor, top (by omega) (by omega), top low high]
    simp

include low high annihilates in
omit additive in
theorem act_timesX {p : Nat} (small : p < 2 ^ degree) (v : BitVec width) :
    act step degree (timesX degree modulus p) v = act step degree p (step v) := by
  have reduced := timesX_lt low high small
  rw [← act_widen reduced, ← act_double]
  unfold timesX
  split
  · rfl
  · rw [act_xor, annihilates]
    simp

include low high in
omit additive in
theorem times_lt (n q : Nat) {p : Nat} (small : p < 2 ^ degree) :
    times degree modulus n q p < 2 ^ degree := by
  induction n generalizing q with
  | zero => exact Nat.two_pow_pos degree
  | succ n ih =>
      have chosen : q % 2 * p < 2 ^ degree :=
        (Nat.mul_le_mul_right p (Nat.le_of_lt_succ (Nat.mod_lt q (by decide)))).trans_lt
          (by rwa [Nat.one_mul])
      exact Nat.xor_lt_two_pow chosen (timesX_lt low high (ih (q / 2)))

include low high annihilates in
theorem act_times (n q : Nat) {p : Nat} (small : p < 2 ^ degree) (v : BitVec width) :
    act step degree (times degree modulus n q p) v = act step n q (act step degree p v) := by
  induction n generalizing q v with
  | zero => simp [times, act]
  | succ n ih =>
      rw [times, act_xor, act_timesX low high annihilates (times_lt low high n (q / 2) small), ih,
        act_step additive]
      have chosen : act step degree (q % 2 * p) v =
          if q % 2 = 1 then act step degree p v else 0#(width) := by
        rcases Nat.mod_two_eq_zero_or_one q with even | odd <;> simp [*]
      rw [chosen, act]

include low high in
omit additive in
theorem power_lt (positive : 0 < degree) {p : Nat} (small : p < 2 ^ degree) (bits n : Nat) :
    power degree modulus p bits n < 2 ^ degree := by
  cases bits with
  | zero => exact Nat.one_lt_two_pow positive.ne'
  | succ bits =>
      have half := power_lt positive small bits (n / 2)
      unfold power
      split
      · exact times_lt low high _ _ (times_lt low high _ _ half)
      · exact times_lt low high _ _ half

include low high annihilates in
theorem act_power (positive : 0 < degree) {p : Nat} (small : p < 2 ^ degree) {bits n : Nat}
    (short : n < 2 ^ bits) (v : BitVec width) :
    act step degree (power degree modulus p bits n) v = (act step degree p)^[n] v := by
  induction bits generalizing n v with
  | zero =>
      obtain ⟨d, rfl⟩ : ∃ d, degree = d + 1 := ⟨degree - 1, by omega⟩
      have none : n = 0 := by simpa using short
      simp [power, none]
  | succ bits ih =>
      have half := power_lt low high positive small bits (n / 2)
      have square (v : BitVec width) :
          act step degree (times degree modulus degree (power degree modulus p bits (n / 2))
            (power degree modulus p bits (n / 2))) v =
          (act step degree p)^[n / 2 + n / 2] v := by
        rw [act_times additive low high annihilates _ _ half, ih (by omega), ih (by omega),
          Function.iterate_add_apply]
      unfold power
      split
      next odd =>
        have whole : n = n / 2 + n / 2 + 1 := by omega
        rw [act_times additive low high annihilates _ _ (times_lt low high _ _ half), square]
        conv_rhs => rw [whole, Function.iterate_succ_apply']
      next even =>
        have whole : n = n / 2 + n / 2 := by omega
        rw [square]
        conv_rhs => rw [whole]

end Modulus

end Action

section Period

open Function

variable {step : BitVec width → BitVec width} {n : Nat} {v : BitVec width}

theorem minimalPeriod_eq (returns : step^[n] v = v)
    (moves : ∀ q, q.Prime → q ∣ n → step^[n / q] v ≠ v) : minimalPeriod step v = n := by
  have periodic : IsPeriodicPt step n v := returns
  obtain ⟨rest, whole⟩ := periodic.minimalPeriod_dvd
  by_contra other
  have several : rest ≠ 1 := by
    rintro rfl
    exact other (by rw [Nat.mul_one] at whole; exact whole.symm)
  obtain ⟨q, prime, divides⟩ := Nat.exists_prime_and_dvd several
  obtain ⟨parts, rfl⟩ := divides
  apply moves q prime ⟨minimalPeriod step v * parts, by rw [whole]; ring⟩
  have quotient : n / q = minimalPeriod step v * parts := by
    apply Nat.div_eq_of_eq_mul_right prime.pos
    rw [whole]
    ring
  rw [quotient]
  exact (isPeriodicPt_minimalPeriod step v).mul_const parts

theorem orbit_words (kept : ∀ k, step^[k] v ≠ 0#(width))
    (period : minimalPeriod step v = 2 ^ width - 1) :
    Set.InjOn (fun k => (step^[k] v).toNat) (Finset.range (2 ^ width - 1)) ∧
      (Finset.range (2 ^ width - 1)).image (fun k => (step^[k] v).toNat) =
        (Finset.range (2 ^ width)).erase 0 := by
  have injective : Set.InjOn (fun k => (step^[k] v).toNat) (Finset.range (2 ^ width - 1)) := by
    rw [← period]
    intro i below j below' same
    exact iterate_injOn_Iio_minimalPeriod (Finset.mem_range.mp below) (Finset.mem_range.mp below')
      (BitVec.eq_of_toNat_eq same)
  refine ⟨injective, ?_⟩
  apply Finset.eq_of_subset_of_card_le
  · intro w member
    obtain ⟨k, _, rfl⟩ := Finset.mem_image.mp member
    refine Finset.mem_erase.mpr ⟨fun zero => kept k ?_, Finset.mem_range.mpr (BitVec.isLt _)⟩
    exact BitVec.eq_of_toNat_eq (by simpa using zero)
  · have zero : 0 ∈ Finset.range (2 ^ width) := Finset.mem_range.mpr (Nat.two_pow_pos width)
    rw [Finset.card_image_of_injOn injective, Finset.card_erase_of_mem zero, Finset.card_range,
      Finset.card_range]

theorem orbit_all (kept : ∀ k, step^[k] v ≠ 0#(width))
    (period : minimalPeriod step v = 2 ^ width - 1) {w : BitVec width} (other : w ≠ 0#(width)) :
    ∃ k < 2 ^ width - 1, step^[k] v = w := by
  have member : w.toNat ∈ (Finset.range (2 ^ width)).erase 0 := by
    refine Finset.mem_erase.mpr ⟨fun zero => other ?_, Finset.mem_range.mpr w.isLt⟩
    exact BitVec.eq_of_toNat_eq (by simpa using zero)
  rw [← (orbit_words kept period).2] at member
  obtain ⟨k, below, reached⟩ := Finset.mem_image.mp member
  exact ⟨k, Finset.mem_range.mp below, BitVec.eq_of_toNat_eq reached⟩

end Period

end WordPolynomials
