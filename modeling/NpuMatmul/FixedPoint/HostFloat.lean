import NpuMatmul.FixedPoint.FloatArith
import NpuMatmul.Shared.PowerScaling

set_option autoImplicit false

namespace NpuMatmul

open Binary32

-- What C++ leaves open of the casts to an integer type: the result for a value outside of it.
structure OpenCasts where
  outOfRange : (width : Nat) → BitVec 32 → BitVec width
deriving Inhabited

-- From 2 ^ 23 on a float is an integer, an infinity or a NaN, and std::round returns it.
def roundAway (x : Float32.Model) : Float32.Model :=
  if 150 ≤ biased (word x) then x
  else
    let z := roundHalfAway (value (word x))
    if z = 0 then ofWord (pack (negative (word x)) 0 0) else Float32.Model.ofInt z

def truncated (bits : BitVec 32) : Int := (value bits).num.tdiv (value bits).den

def castToSigned (casts : OpenCasts) (width : Nat) (bits : BitVec 32) : BitVec width :=
  if biased bits ≠ 255 ∧ Fits width (truncated bits) then BitVec.ofInt width (truncated bits)
  else casts.outOfRange width bits

-- The float operations as the processor computes them: IEEE single precision.
def hostFloat (casts : OpenCasts) : FloatArith Float32.Model where
  toBits := word
  ofBits := ofWord
  ofInt := Float32.Model.ofInt
  add := Float32.Model.add
  sub := Float32.Model.sub
  mul := Float32.Model.mul
  div := Float32.Model.div
  max x y := if x.lt y then y else x
  sqrt := Float32.Model.sqrt
  round := roundAway
  greater x y := y.lt x
  toSigned width x := castToSigned casts width (word x)

def FiniteFloat.host (x : FiniteFloat) : Float32.Model := ofWord x.bits

@[simp] theorem word_host (x : FiniteFloat) : word x.host = x.bits :=
  word_ofWord fun infinite => absurd infinite x.finite

section HostFloat

variable (casts : OpenCasts)

@[simp] theorem hostFloat_toBits (x : Float32.Model) : (hostFloat casts).toBits x = word x := rfl

@[simp] theorem hostFloat_mul (x y : Float32.Model) : (hostFloat casts).mul x y = x.mul y := rfl

theorem fastPow2_host (shift : Int) : fastPow2 (hostFloat casts) shift = ofWord (power shift) := rfl

end HostFloat

theorem roundHalfAway_int (z : Int) : roundHalfAway (z : ℚ) = z := by
  unfold roundHalfAway
  split
  · rw [Int.floor_eq_iff]
    constructor <;> linarith
  · have floor : ⌊-(z : ℚ) + 1 / 2⌋ = -z := by
      rw [Int.floor_eq_iff]
      push_cast
      constructor <;> linarith
    rw [floor, neg_neg]

theorem truncated_int {bits : BitVec 32} {z : Int} (whole : value bits = z) :
    truncated bits = z := by
  simp [truncated, whole]

theorem value_large {bits : BitVec 32} (large : 150 ≤ biased bits) :
    ∃ z : Int, value bits = z := by
  have field : ((max (biased bits) 1 : Nat) - 150 : Int) = ((biased bits - 150 : Nat) : Int) := by
    omega
  have size : magnitude bits = ((significand bits * 2 ^ (biased bits - 150) : Nat) : ℚ) := by
    rw [magnitude, field, zpow_natCast]
    push_cast
    rfl
  rw [value, size]
  split
  · exact ⟨-((significand bits * 2 ^ (biased bits - 150) : Nat) : Int), by push_cast; rfl⟩
  · exact ⟨((significand bits * 2 ^ (biased bits - 150) : Nat) : Int), by push_cast; rfl⟩

theorem value_small {bits : BitVec 32} (small : ¬ 150 ≤ biased bits) : |value bits| < 2 ^ 23 := by
  have part : (significand bits : ℚ) < 2 ^ 24 := by exact_mod_cast significand_lt bits
  have scale : (2 : ℚ) ^ (((max (biased bits) 1 : Nat) : Int) - 150) ≤ 2 ^ (-1 : Int) :=
    pow_le (by omega)
  have positive := pow_pos' (((max (biased bits) 1 : Nat) : Int) - 150)
  rw [abs_value, magnitude]
  calc (significand bits : ℚ) * 2 ^ (((max (biased bits) 1 : Nat) : Int) - 150)
      < 2 ^ 24 * 2 ^ (((max (biased bits) 1 : Nat) : Int) - 150) := by gcongr
    _ ≤ 2 ^ 24 * 2 ^ (-1 : Int) := by gcongr
    _ = 2 ^ 23 := by norm_num

theorem roundAway_value {x : Float32.Model} (finite : biased (word x) ≠ 255) :
    biased (word (roundAway x)) ≠ 255 ∧
      value (word (roundAway x)) = roundHalfAway (value (word x)) := by
  by_cases large : 150 ≤ biased (word x)
  · obtain ⟨z, whole⟩ := value_large large
    rw [roundAway, if_pos large]
    exact ⟨finite, by rw [whole, roundHalfAway_int]⟩
  · have bound : |roundHalfAway (value (word x))| ≤ 2 ^ 23 :=
      abs_roundHalfAway_le (by exact_mod_cast value_small large)
    simp only [roundAway, if_neg large]
    by_cases zero : roundHalfAway (value (word x)) = 0
    · have exponent : biased (pack (negative (word x)) 0 0) = 0 :=
        biased_pack _ (by decide) (by decide)
      have part : fraction (pack (negative (word x)) 0 0) = 0 :=
        fraction_pack _ (by decide) (by decide)
      have none : value (pack (negative (word x)) 0 0) = 0 := by
        simp [value, magnitude, significand, exponent, part]
      rw [if_pos zero, word_ofWord (fun _ => part), exponent, none, zero]
      exact ⟨by decide, by norm_num⟩
    · rw [if_neg zero]
      exact word_ofInt zero (by omega)

theorem roundAway_special {x : Float32.Model} (special : biased (word x) = 255) :
    roundAway x = x := by
  rw [roundAway, if_pos (by omega)]

theorem toSigned_round (casts : OpenCasts) {width : Nat} {x : Float32.Model}
    (finite : biased (word x) ≠ 255) (fits : Fits width (roundHalfAway (value (word x)))) :
    (hostFloat casts).toSigned width ((hostFloat casts).round x) =
      BitVec.ofInt width (roundHalfAway (value (word x))) := by
  obtain ⟨kept, whole⟩ := roundAway_value finite
  have integer := truncated_int whole
  change castToSigned casts width (word (roundAway x)) = _
  rw [castToSigned, integer, if_pos ⟨kept, fits⟩]

end NpuMatmul
