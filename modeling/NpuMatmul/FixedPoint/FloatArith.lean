import Mathlib.Tactic.Linarith
import NpuMatmul.Shared.Binary32

set_option autoImplicit false

namespace NpuMatmul

-- The float operations of the host code. Reading a float through memcpy or a union is toBits
-- or ofBits; a cast to a signed integer type of some width is toSigned.
structure FloatArith (F : Type) where
  toBits : F → BitVec 32
  ofBits : BitVec 32 → F
  ofInt : Int → F
  add : F → F → F
  sub : F → F → F
  mul : F → F → F
  div : F → F → F
  max : F → F → F
  sqrt : F → F
  round : F → F
  greater : F → F → Bool
  toSigned : (width : Nat) → F → BitVec width

-- (127 + shift) << 23 on an int32_t, read back as a float.
def fastPow2 {F : Type} (fp : FloatArith F) (shift : Int) : F :=
  fp.ofBits (BitVec.ofInt 32 ((127 + shift) * 2 ^ 23))

structure FiniteFloat where
  bits : BitVec 32
  finite : Binary32.biased bits ≠ 255

def FiniteFloat.toRat (x : FiniteFloat) : ℚ := Binary32.value x.bits

theorem FiniteFloat.abs_lt (x : FiniteFloat) : |x.toRat| < 2 ^ 128 :=
  Binary32.abs_value_lt x.finite

-- std::round, halves away from zero.
def roundHalfAway (q : ℚ) : Int := if 0 ≤ q then ⌊q + 1 / 2⌋ else -⌊-q + 1 / 2⌋

-- What exact rational arithmetic does not settle: square roots, the rational standing for an
-- infinity or a NaN, and the undefined cast of a value outside the integer type.
structure Unspecified where
  sqrt : ℚ → ℚ
  nonFinite : BitVec 32 → ℚ
  outOfRange : (width : Nat) → ℚ → BitVec width
deriving Inhabited

def Fits (width : Nat) (z : Int) : Prop := -2 ^ (width - 1) ≤ z ∧ z < 2 ^ (width - 1)

instance (width : Nat) (z : Int) : Decidable (Fits width z) := by
  unfold Fits
  infer_instance

def castSigned (host : Unspecified) (width : Nat) (q : ℚ) : BitVec width :=
  if Fits width (q.num.tdiv q.den) then BitVec.ofInt width (q.num.tdiv q.den)
  else host.outOfRange width q

def exact (host : Unspecified) : FloatArith ℚ where
  toBits := Binary32.encode
  ofBits bits := if Binary32.biased bits = 255 then host.nonFinite bits else Binary32.value bits
  ofInt z := z
  add := (· + ·)
  sub := (· - ·)
  mul := (· * ·)
  div := (· / ·)
  max := Max.max
  sqrt := host.sqrt
  round q := roundHalfAway q
  greater x y := decide (y < x)
  toSigned := castSigned host

section Exact

variable (host : Unspecified)

@[simp] theorem exact_toBits (q : ℚ) : (exact host).toBits q = Binary32.encode q := rfl
@[simp] theorem exact_ofInt (z : Int) : (exact host).ofInt z = (z : ℚ) := rfl
@[simp] theorem exact_add (x y : ℚ) : (exact host).add x y = x + y := rfl
@[simp] theorem exact_sub (x y : ℚ) : (exact host).sub x y = x - y := rfl
@[simp] theorem exact_mul (x y : ℚ) : (exact host).mul x y = x * y := rfl
@[simp] theorem exact_div (x y : ℚ) : (exact host).div x y = x / y := rfl
@[simp] theorem exact_round (q : ℚ) : (exact host).round q = roundHalfAway q := rfl

@[simp] theorem exact_toSigned_int {width : Nat} {z : Int} (fits : Fits width z) :
    (exact host).toSigned width (z : ℚ) = BitVec.ofInt width z := by
  simp [exact, castSigned, fits]

theorem exact_toSigned_out {width : Nat} {z : Int} (out : ¬ Fits width z) :
    (exact host).toSigned width (z : ℚ) = host.outOfRange width z := by
  simp [exact, castSigned, out]

theorem fastPow2_exact {shift : Int} (low : -126 ≤ shift) (high : shift ≤ 127) :
    fastPow2 (exact host) shift = 2 ^ shift := by
  have field : Binary32.biased (BitVec.ofInt 32 ((127 + shift) * 2 ^ 23)) ≠ 255 := by
    rw [Binary32.biased, BitVec.toNat_ofInt]
    omega
  simp only [fastPow2, exact, if_neg field]
  exact Binary32.value_exponent low high

end Exact

theorem roundHalfAway_near (q : ℚ) : |q - roundHalfAway q| ≤ 1 / 2 := by
  unfold roundHalfAway
  rw [abs_le]
  split
  · have lower := Int.floor_le (q + 1 / 2)
    have upper := Int.lt_floor_add_one (q + 1 / 2)
    constructor <;> linarith
  · have lower := Int.floor_le (-q + 1 / 2)
    have upper := Int.lt_floor_add_one (-q + 1 / 2)
    push_cast
    constructor <;> linarith

@[simp] theorem roundHalfAway_zero : roundHalfAway 0 = 0 := by
  norm_num [roundHalfAway]

theorem abs_roundHalfAway_le {q : ℚ} {bound : Int} (small : |q| < bound) :
    |roundHalfAway q| ≤ bound := by
  have near := roundHalfAway_near q
  rw [abs_le] at near
  rw [abs_lt] at small
  rw [abs_le]
  constructor
  · have above : ((-bound - 1 : Int) : ℚ) < roundHalfAway q := by
      push_cast
      linarith
    have integers : -bound - 1 < roundHalfAway q := by exact_mod_cast above
    omega
  · have below : (roundHalfAway q : ℚ) < ((bound + 1 : Int) : ℚ) := by
      push_cast
      linarith
    have integers : roundHalfAway q < bound + 1 := by exact_mod_cast below
    omega

theorem roundHalfAway_neg (q : ℚ) : roundHalfAway (-q) = -roundHalfAway q := by
  unfold roundHalfAway
  by_cases zero : q = 0
  · norm_num [zero]
  · by_cases nonneg : 0 ≤ q
    · have below : ¬ 0 ≤ -q := by
        intro other
        exact zero (by linarith)
      simp [nonneg, below]
    · have above : 0 ≤ -q := by linarith
      simp [nonneg, above]

end NpuMatmul
