import NpuMatmul.FixedPoint.FittedExponents
import NpuMatmul.FixedPoint.HostFloat

set_option autoImplicit false

namespace NpuMatmul

open Binary32

section Words

variable {n : Nat} {bits : Nat → BitVec 32}

theorem maxField_pos : 0 < maxField n bits ↔ ∃ i < n, biased (bits i) ≠ 0 := by
  constructor
  · intro positive
    obtain ⟨i, below, attained⟩ := maxField_attained positive
    exact ⟨i, below, by omega⟩
  · intro normal
    obtain ⟨i, below, nonzero⟩ := normal
    have le := le_maxField bits below
    omega

-- The exponent bounds the words from above, and one of them comes within a factor of two.
def TightWords (n : Nat) (bits : Nat → BitVec 32) : Prop :=
  (∀ i < n, |value (bits i)| < 2 ^ fieldExponent n bits) ∧
    ((∃ i < n, biased (bits i) ≠ 0) → ∃ i < n, 2 ^ (fieldExponent n bits - 1) ≤ |value (bits i)|)

def NormalOrTiny (n : Nat) (bits : Nat → BitVec 32) : Prop :=
  (∃ i < n, biased (bits i) ≠ 0) ∨ ∀ i < n, |value (bits i)| < 2 ^ (-127 : Int)

theorem tightWords_iff : TightWords n bits ↔ NormalOrTiny n bits := by
  by_cases normal : 0 < maxField n bits
  · have some := maxField_pos.mp normal
    constructor
    · intro _
      exact .inl some
    · intro _
      exact ⟨fun i below => fieldExponent_upper normal below, fun _ => fieldExponent_lower normal⟩
  · have none := mt maxField_pos.mpr normal
    have lowest : fieldExponent n bits = -127 := if_neg normal
    rw [TightWords, NormalOrTiny, lowest]
    constructor
    · intro tight
      exact .inr tight.1
    · intro tiny
      exact ⟨tiny.resolve_left none, fun some => absurd some none⟩

def scaledWord (x : Float32.Model) (exponent : Int) : BitVec 32 :=
  word (x.mul (ofWord (power (-exponent))))

def BelowOne (bits : BitVec 32) : Prop := biased bits ≠ 255 ∧ |value bits| < 1

theorem scaledWord_belowOne {x : Float32.Model} (finite : biased (word x) ≠ 255) {exponent : Int}
    (low : -127 ≤ exponent) (high : exponent ≤ 127) (below : |value (word x)| < 2 ^ exponent) :
    BelowOne (scaledWord x exponent) := by
  rw [scaledWord, power_inside (by omega) (by omega)]
  by_cases lost : exponent = 127
  · have zero : significand (word (ofWord (signedPower false (-exponent)))) = 0 := by
      rw [word_signedPower false (by omega) (by omega), significand,
        biased_signedPower false (by omega) (by omega),
        fraction_signedPower false (by omega) (by omega), lost]
      rfl
    rw [mul_zero_word finite zero]
    constructor
    · rw [biased_pack _ (by decide) (by decide)]
      decide
    · rw [abs_value, magnitude, significand, biased_pack _ (by decide) (by decide),
        fraction_pack _ (by decide) (by decide)]
      norm_num
  · have unit : magnitude (word x) * 2 ^ (-exponent) < 1 := by
      have scale := pow_pos' (-exponent)
      rw [← abs_value]
      calc |value (word x)| * 2 ^ (-exponent) < 2 ^ exponent * 2 ^ (-exponent) := by gcongr
        _ = 1 := by rw [← pow_split]; simp
    by_cases normal : 2 ^ (-126 : Int) ≤ magnitude (word x) * 2 ^ (-exponent)
    · obtain ⟨_, kept, _, size⟩ := scaled_normal x false (by omega) (by omega) finite normal
        (lt_trans unit (by norm_num))
      refine ⟨kept, ?_⟩
      rw [abs_value]
      exact lt_of_eq_of_lt size unit
    · obtain ⟨kept, size⟩ := scaled_tiny x false (by omega) (by omega) finite (not_le.mp normal)
      refine ⟨kept, ?_⟩
      rw [abs_value]
      exact lt_of_le_of_lt size (by norm_num)

-- fast_pow2(-128) shifts into the sign bit and is minus infinity.
theorem scaledWord_infinite (x : Float32.Model) : ¬ BelowOne (scaledWord x 128) := by
  intro below
  apply below.1
  apply mul_special
  right
  rw [power_below (by omega) (by omega), word_signedPower true (by omega) (by omega),
    biased_signedPower true (by omega) (by omega)]
  rfl

theorem biased_large {bits : BitVec 32} (finite : biased bits ≠ 255) :
    biased bits = 254 ↔ 2 ^ (127 : Int) ≤ |value bits| := by
  have below := biased_lt bits
  constructor
  · intro largest
    have lower := (magnitude_bounds (by omega : biased bits ≠ 0)).1
    rw [largest] at lower
    rw [abs_value]
    exact lower
  · intro large
    have upper := lt_of_le_of_lt large (abs_value_lt_pow bits)
    have exponents := (zpow_lt_zpow_iff_right₀ (by norm_num : (1 : ℚ) < 2)).mp upper
    omega

theorem belowOne_iff {values : Nat → Float32.Model} (finite : ∀ i < n, biased (word (values i)) ≠ 255)
    (tight : ∀ i < n, |value (word (values i))| < 2 ^ fieldExponent n fun i => word (values i)) :
    (∀ i < n, BelowOne (scaledWord (values i) (fieldExponent n fun i => word (values i)))) ↔
      ∀ i < n, |value (word (values i))| < 2 ^ (127 : Int) := by
  have range := fieldExponent_range finite
  constructor
  · intro scaled i below
    by_contra large
    have field := (biased_large (finite i below)).mpr (not_lt.mp large)
    have most := maxField_lt finite
    have le := le_maxField (fun i => word (values i)) below
    have largest : fieldExponent n (fun i => word (values i)) = 128 := by
      rw [fieldExponent, if_pos (by omega)]
      omega
    apply scaledWord_infinite (values i)
    rw [← largest]
    exact scaled i below
  · intro small i below
    have notLargest : fieldExponent n (fun i => word (values i)) ≤ 127 := by
      by_contra large
      have positive : 0 < maxField n fun i => word (values i) := by
        by_contra none
        rw [fieldExponent, if_neg none] at large
        omega
      rw [fieldExponent, if_pos positive] at large
      obtain ⟨k, inside, attained⟩ := maxField_attained positive
      have most := maxField_lt finite
      have huge := (biased_large (finite k inside)).mp (by omega)
      exact absurd (small k inside) (not_lt.mpr huge)
    exact scaledWord_belowOne (finite i below) range.1 notLargest (tight i below)

end Words

section Blocks

variable (casts : OpenCasts) {width : Nat} (memory : BlockArrays width Float32.Model)
  (shape : BlockShape) (values : Nat → FiniteFloat)

def fittedExponents : Nat → Int :=
  ((FixedPointBlock.create memory shape.rows shape.cols shape.blockSize
    shape.blockColumns).fitExponent (hostFloat casts) fun i => (values i).host).exponents

def blockWords (lane block offset : Nat) : BitVec 32 :=
  (values (shape.element lane block offset)).bits

def TightAt (lane block : Nat) (exponent : Int) : Prop :=
  (∀ offset < shape.count block, |value (blockWords shape values lane block offset)| < 2 ^ exponent) ∧
    (∀ offset < shape.count block, BelowOne (word (scaledElement (hostFloat casts) shape
      (fun i => (values i).host) exponent lane block offset))) ∧
    ((∃ offset < shape.count block, biased (blockWords shape values lane block offset) ≠ 0) →
      ∃ offset < shape.count block,
        2 ^ (exponent - 1) ≤ |value (blockWords shape values lane block offset)|)

def ExponentsTight : Prop :=
  ∀ lane < shape.lanes, ∀ block < shape.numBlocks,
    TightAt casts shape values lane block
      (fittedExponents casts memory shape values (shape.blockFlatIdx lane block))

theorem fittedExponents_field {lane block : Nat} (below : lane < shape.lanes)
    (inside : block < shape.numBlocks) :
    fittedExponents casts memory shape values (shape.blockFlatIdx lane block) =
      fieldExponent (shape.count block) (blockWords shape values lane block) := by
  have fitted := (fitExponent_correct (hostFloat casts) (FixedPointBlock.create memory shape.rows
    shape.cols shape.blockSize shape.blockColumns) (fun i => (values i).host) lane below block
    inside).1
  rw [blockStats_fieldExponent] at fitted
  simp only [hostFloat_toBits, word_host] at fitted
  exact fitted

theorem tightAt_iff (lane block : Nat) :
    TightAt casts shape values lane block
        (fieldExponent (shape.count block) (blockWords shape values lane block)) ↔
      NormalOrTiny (shape.count block) (blockWords shape values lane block) ∧
        ∀ offset < shape.count block,
          |value (blockWords shape values lane block offset)| < 2 ^ (127 : Int) := by
  have same : (fun offset => word (values (shape.element lane block offset)).host) =
      blockWords shape values lane block := by
    funext offset
    exact word_host _
  have finite : ∀ offset < shape.count block,
      biased (word (values (shape.element lane block offset)).host) ≠ 255 := by
    intro offset _
    rw [word_host]
    exact (values (shape.element lane block offset)).finite
  have words : ∀ offset, word (values (shape.element lane block offset)).host =
      blockWords shape values lane block offset := fun offset => word_host _
  have scaled := belowOne_iff finite
  simp only [words] at scaled
  rw [← tightWords_iff]
  constructor
  · intro tight
    obtain ⟨upper, below, lower⟩ := tight
    exact ⟨⟨upper, lower⟩, (scaled upper).mp below⟩
  · intro kept
    obtain ⟨⟨upper, lower⟩, small⟩ := kept
    exact ⟨upper, (scaled upper).mpr small, lower⟩

-- Every exponent is tight just when no block holds denormals from 2 ^ -127 on without a normal
-- float beside them, and no element reaches 2 ^ 127.
theorem exponentsTight_iff :
    ExponentsTight casts memory shape values ↔
      ∀ lane < shape.lanes, ∀ block < shape.numBlocks,
        NormalOrTiny (shape.count block) (blockWords shape values lane block) ∧
          ∀ offset < shape.count block,
            |value (blockWords shape values lane block offset)| < 2 ^ (127 : Int) := by
  constructor
  · intro tight lane below block inside
    have here := tight lane below block inside
    rw [fittedExponents_field casts memory shape values below inside] at here
    exact (tightAt_iff casts shape values lane block).mp here
  · intro kept lane below block inside
    rw [fittedExponents_field casts memory shape values below inside]
    exact (tightAt_iff casts shape values lane block).mpr (kept lane below block inside)

end Blocks

-- One denormal, 2 ^ -127, whose exponent is stored as -127.
theorem denormal_not_tight :
    ¬ ExponentsTight default (default : BlockArrays 8 Float32.Model)
      { rows := 1, cols := 1, blockSize := 1, blockColumns := true }
      (fun _ => { bits := 0x00400000#32, finite := by decide }) := by
  intro tight
  have here := tight 0 (by decide) 0 (by decide)
  rw [fittedExponents_field default default _ _ (by decide) (by decide)] at here
  have below := here.1 0 (by decide)
  have exponent : biased 0x00400000#32 = 0 := by decide
  have part : fraction 0x00400000#32 = 2 ^ 22 := by decide
  have lowest : fieldExponent 1 (fun _ => 0x00400000#32) = -127 := by
    have none : maxField 1 (fun _ => 0x00400000#32) = 0 := by simp [maxField, exponent]
    rw [fieldExponent, none]
    rfl
  have size : |value 0x00400000#32| = 2 ^ (-127 : Int) := by
    rw [abs_value, magnitude, significand, exponent, part]
    norm_num
  have bound : |value 0x00400000#32| < 2 ^ fieldExponent 1 (fun _ => 0x00400000#32) := below
  rw [size, lowest] at bound
  exact lt_irrefl _ bound

end NpuMatmul
