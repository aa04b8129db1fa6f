import Mathlib.Algebra.BigOperators.Ring.Finset
import NpuMatmul.FixedPoint.HostFloat
import NpuMatmul.FixedPoint.RoundBits

set_option autoImplicit false

namespace NpuMatmul

open Loop Binary32

structure WrittenArray (α : Type) where
  cells : Nat → α
  writes : List Nat

def WrittenArray.write {α : Type} (array : WrittenArray α) (index : Nat) (value : α) :
    WrittenArray α :=
  { cells := Function.update array.cells index value, writes := array.writes ++ [index] }

structure WrittenState (width : Nat) where
  generators : Generators
  outputArray : WrittenArray (BitVec width)

def WrittenState.plain {width : Nat} (state : WrittenState width) : RoundState width :=
  { generators := state.generators, outputArray := state.outputArray.cells }

section Writes

variable {F : Type} (fp : FloatArith F) {width : Nat} (inputArray : Nat → F) (precision : Nat)

-- The loops of stochasticRoundArray with every write to the output recorded.
def writeGroup (group : Nat) (state : WrittenState width) : WrittenState width :=
  let generators := state.generators.advance
  { generators := generators
    outputArray := forLoop 4 (fun j array => array.write (4 * group + j)
      (roundElement fp inputArray precision (4 * group + j) (generators.randomNoises j)))
      state.outputArray }

def writeRemainder (start offset : Nat) (state : WrittenState width) : WrittenState width :=
  let noise := xorshift32 state.generators.r0
  { generators := { state.generators with r0 := noise }
    outputArray := state.outputArray.write (start + offset)
      (roundElement fp inputArray precision (start + offset) noise) }

def stochasticRoundWrites (outputArray : Nat → BitVec width) (arraySize : Nat) :
    WrittenArray (BitVec width) :=
  let state : WrittenState width :=
    { generators := .seeds, outputArray := { cells := outputArray, writes := [] } }
  let state := forLoop (arraySize / 4) (writeGroup fp inputArray precision) state
  let remainderStart := arraySize / 4 * 4
  (forLoop (arraySize - remainderStart) (writeRemainder fp inputArray precision remainderStart)
    state).outputArray

theorem writeGroup_plain (group : Nat) (state : WrittenState width) :
    (writeGroup fp inputArray precision group state).plain =
      roundGroup fp inputArray precision group state.plain := by
  simp [writeGroup, roundGroup, WrittenState.plain, WrittenArray.write, store]

theorem writeRemainder_plain (start offset : Nat) (state : WrittenState width) :
    (writeRemainder fp inputArray precision start offset state).plain =
      roundRemainder fp inputArray precision start offset state.plain := by
  simp [writeRemainder, roundRemainder, WrittenState.plain, WrittenArray.write]

theorem stochasticRoundWrites_cells (outputArray : Nat → BitVec width) (arraySize : Nat) :
    (stochasticRoundWrites fp inputArray precision outputArray arraySize).cells =
      stochasticRoundArray fp inputArray precision outputArray arraySize := by
  have groups (count : Nat) (state : WrittenState width) :
      (forLoop count (writeGroup fp inputArray precision) state).plain =
        forLoop count (roundGroup fp inputArray precision) state.plain :=
    forLoop_project WrittenState.plain
      (fun group state _ => writeGroup_plain fp inputArray precision group state) state
  have remainders (start count : Nat) (state : WrittenState width) :
      (forLoop count (writeRemainder fp inputArray precision start) state).plain =
        forLoop count (roundRemainder fp inputArray precision start) state.plain :=
    forLoop_project WrittenState.plain
      (fun offset state _ => writeRemainder_plain fp inputArray precision start offset state) state
  have outputs := congrArg RoundState.outputArray
    (remainders (arraySize / 4 * 4) (arraySize - arraySize / 4 * 4)
      (forLoop (arraySize / 4) (writeGroup fp inputArray precision)
        { generators := .seeds, outputArray := { cells := outputArray, writes := [] } }))
  rw [groups] at outputs
  exact outputs

theorem writeGroups_writes (groups : Nat) (state : WrittenState width)
    (unwritten : state.outputArray.writes = []) :
    (forLoop groups (writeGroup fp inputArray precision) state).outputArray.writes =
      List.range (4 * groups) := by
  induction groups with
  | zero => simp [unwritten]
  | succ groups ih =>
    have next : 4 * (groups + 1) = 4 * groups + 1 + 1 + 1 + 1 := by ring
    rw [forLoop_succ, next]
    simp [writeGroup, WrittenArray.write, ih, List.range_succ]

theorem writeRemainders_writes (start count : Nat) (state : WrittenState width)
    (written : state.outputArray.writes = List.range start) :
    (forLoop count (writeRemainder fp inputArray precision start) state).outputArray.writes =
      List.range (start + count) := by
  induction count with
  | zero => simp [written]
  | succ count ih =>
    rw [forLoop_succ, ← Nat.add_assoc, List.range_succ, ← ih]
    rfl

theorem stochasticRoundWrites_writes (outputArray : Nat → BitVec width) (arraySize : Nat) :
    (stochasticRoundWrites fp inputArray precision outputArray arraySize).writes =
      List.range arraySize := by
  have grouped := writeGroups_writes fp inputArray precision (arraySize / 4)
    { generators := .seeds, outputArray := { cells := outputArray, writes := [] } } rfl
  rw [Nat.mul_comm] at grouped
  have whole : arraySize / 4 * 4 + (arraySize - arraySize / 4 * 4) = arraySize := by omega
  have written := writeRemainders_writes fp inputArray precision (arraySize / 4 * 4)
    (arraySize - arraySize / 4 * 4) _ grouped
  rw [whole] at written
  exact written

end Writes

-- The parts of a float at some precision: floor(|x|), floor(|x| * 2 ^ precision) and the fraction
-- of the latter.
def integerPart (bits : BitVec 32) : Nat := ⌊magnitude bits⌋₊

def scaledFloor (bits : BitVec 32) (precision : Nat) : Nat := ⌊magnitude bits * 2 ^ precision⌋₊

def scaledFraction (bits : BitVec 32) (precision : Nat) : Nat :=
  scaledFloor bits precision % 2 ^ precision

def withSign (bits : BitVec 32) (n : Nat) : Int := if negative bits then -n else n

structure Roundable (bits : BitVec 32) (precision : Nat) : Prop where
  normal : biased bits ≠ 0
  finite : biased bits ≠ 255
  inside : magnitude bits * 2 ^ precision < 2 ^ 32

def Representable (width : Nat) (bits : BitVec 32) (precision : Nat) (noise : BitVec 32) : Prop :=
  Fits width (roundedInteger (value bits) noise precision)

theorem scaledFloor_div (bits : BitVec 32) (precision : Nat) :
    scaledFloor bits precision / 2 ^ precision = integerPart bits := by
  rw [scaledFloor, integerPart, ← Nat.floor_div_natCast]
  congr 1
  push_cast
  field_simp

theorem withSign_natAbs (bits : BitVec 32) (n : Nat) : (withSign bits n).natAbs = n := by
  unfold withSign
  split <;> simp

theorem sum_withSign (bits : BitVec 32) (n : Nat) (part : Nat → Nat) :
    ∑ i ∈ Finset.range n, withSign bits (part i) =
      withSign bits (∑ i ∈ Finset.range n, part i) := by
  by_cases sign : negative bits = true
  · simp only [withSign, if_pos sign, Finset.sum_neg_distrib]
    push_cast
    rfl
  · simp only [withSign, if_neg sign]
    push_cast
    rfl

theorem sum_carries (s : Nat) {n : Nat} (positive : 0 < n) :
    ∑ offset ∈ Finset.range n, (s + offset) / n = s := by
  induction s with
  | zero =>
    apply Finset.sum_eq_zero
    intro offset below
    rw [Nat.zero_add]
    exact Nat.div_eq_of_lt (Finset.mem_range.mp below)
  | succ s ih =>
    obtain ⟨m, rfl⟩ : ∃ m, n = m + 1 := ⟨n - 1, by omega⟩
    have first := Finset.sum_range_succ' (fun offset => (s + offset) / (m + 1)) m
    rw [ih] at first
    have last : (s + 1 + m) / (m + 1) = s / (m + 1) + 1 := by
      rw [Nat.add_assoc, Nat.add_comm 1 m, Nat.add_div_right s positive]
    have shifted : ∀ offset, s + 1 + offset = s + (offset + 1) := by omega
    rw [Finset.sum_range_succ, last]
    simp only [shifted, Nat.add_zero] at *
    omega

theorem Roundable.fits {bits : BitVec 32} {precision : Nat} (inputs : Roundable bits precision) :
    biased bits + precision ≤ 158 := by
  have lower := (magnitude_bounds inputs.normal).1
  have scale : (0 : ℚ) < 2 ^ (precision : Int) := by positivity
  have below : (2 : ℚ) ^ ((biased bits : Int) - 127 + precision) < 2 ^ (32 : Int) := by
    calc (2 : ℚ) ^ ((biased bits : Int) - 127 + precision)
        = 2 ^ ((biased bits : Int) - 127) * 2 ^ (precision : Int) := pow_split _ _
      _ ≤ magnitude bits * 2 ^ (precision : Int) := by gcongr
      _ < 2 ^ (32 : Int) := by exact_mod_cast inputs.inside
  have exponents := (zpow_lt_zpow_iff_right₀ (by norm_num : (1 : ℚ) < 2)).mp below
  omega

theorem roundingCarry_parts (bits noise : BitVec 32) (precision : Nat) :
    roundingCarry (value bits) noise precision =
      (scaledFloor bits precision + noise.toNat % 2 ^ precision) / 2 ^ precision := by
  rw [roundingCarry, abs_value, scaledFloor]

theorem roundedInteger_parts {bits : BitVec 32} (normal : biased bits ≠ 0) (noise : BitVec 32)
    (precision : Nat) :
    roundedInteger (value bits) noise precision =
      withSign bits ((scaledFloor bits precision + noise.toNat % 2 ^ precision) /
        2 ^ precision) := by
  simp only [roundedInteger, withSign, value_neg_iff normal, roundingCarry_parts]

theorem roundingCarry_neighbour (bits noise : BitVec 32) (precision : Nat) :
    roundingCarry (value bits) noise precision = integerPart bits ∨
      scaledFraction bits precision ≠ 0 ∧
        roundingCarry (value bits) noise precision = integerPart bits + 1 := by
  have positive := Nat.two_pow_pos precision
  have random := Nat.mod_lt noise.toNat positive
  have part : scaledFraction bits precision < 2 ^ precision := Nat.mod_lt _ positive
  have split := Nat.div_add_mod (scaledFloor bits precision) (2 ^ precision)
  rw [scaledFloor_div] at split
  have carry : roundingCarry (value bits) noise precision = integerPart bits +
      (scaledFraction bits precision + noise.toNat % 2 ^ precision) / 2 ^ precision := by
    rw [roundingCarry_parts, ← split, Nat.add_assoc, Nat.mul_add_div positive]
    rfl
  by_cases carries : 2 ^ precision ≤ scaledFraction bits precision + noise.toNat % 2 ^ precision
  · have one : (scaledFraction bits precision + noise.toNat % 2 ^ precision) / 2 ^ precision =
        1 := Nat.div_eq_of_lt_le (by omega) (by omega)
    exact .inr ⟨by omega, by rw [carry, one]⟩
  · have none : (scaledFraction bits precision + noise.toNat % 2 ^ precision) / 2 ^ precision =
        0 := Nat.div_eq_of_lt (by omega)
    exact .inl (by rw [carry, none, Nat.add_zero])

-- The significand has 24 bits, so a scaled magnitude below 2 ^ 32 is below it by 2 ^ 8.
theorem Roundable.scaledFloor_le {bits : BitVec 32} {precision : Nat}
    (inputs : Roundable bits precision) : scaledFloor bits precision ≤ 2 ^ 32 - 2 ^ 8 := by
  have fits := inputs.fits
  have part : ((2 ^ 23 + fraction bits : Nat) : ℚ) ≤ 2 ^ 24 - 1 := by
    have below : 2 ^ 23 + fraction bits + 1 ≤ 2 ^ 24 := by
      have below := fraction_lt bits
      omega
    have cast : ((2 ^ 23 + fraction bits + 1 : Nat) : ℚ) ≤ 2 ^ 24 := by exact_mod_cast below
    push_cast at cast ⊢
    linarith
  have scale : (2 : ℚ) ^ (-(150 - (precision : Int) - biased bits)) ≤ 2 ^ (8 : Int) :=
    pow_le (by omega)
  have bound : magnitude bits * 2 ^ precision ≤ ((2 ^ 32 - 2 ^ 8 : Nat) : ℚ) := by
    calc magnitude bits * 2 ^ precision
        = ((2 ^ 23 + fraction bits : Nat) : ℚ) * 2 ^ (-(150 - (precision : Int) - biased bits)) :=
          magnitude_scaled inputs.normal precision
      _ ≤ (2 ^ 24 - 1) * 2 ^ (8 : Int) := by gcongr
      _ = ((2 ^ 32 - 2 ^ 8 : Nat) : ℚ) := by norm_num
  have floor := Nat.floor_le_floor bound
  rw [Nat.floor_natCast] at floor
  exact floor

theorem Roundable.small {bits : BitVec 32} {precision : Nat} (inputs : Roundable bits precision)
    (least : 1 ≤ precision) (noise : BitVec 32) :
    roundingCarry (value bits) noise precision < 2 ^ 31 := by
  have below := inputs.scaledFloor_le
  have random := Nat.mod_lt noise.toNat (Nat.two_pow_pos precision)
  rw [roundingCarry_parts, Nat.div_lt_iff_lt_mul (Nat.two_pow_pos precision)]
  by_cases one : precision = 1
  · subst one
    omega
  · have four : 2 ^ 2 ≤ 2 ^ precision := Nat.pow_le_pow_right (by decide) (by omega)
    omega

section Faithful

variable {F : Type} (fp : FloatArith F) {width precision : Nat}

theorem process_toInt (positive : 0 < width) (least : 1 ≤ precision) (most : precision ≤ 31) {x : F}
    (inputs : Roundable (fp.toBits x) precision) {noise : BitVec 32}
    (fits : Representable width (fp.toBits x) precision noise) :
    (processSingleStochasticRound fp width x noise precision
      (1#32 <<< precision - 1#32)).value.toInt =
      withSign (fp.toBits x) (roundingCarry (value (fp.toBits x)) noise precision) := by
  rw [process_value fp most noise inputs.normal inputs.fits (inputs.small least noise),
    BitVec.toInt_ofInt_eq_self positive fits.1 fits.2, roundedInteger_parts inputs.normal,
    roundingCarry_parts]

-- One of the two integers around the element, the one towards zero where nothing is cut off.
structure Faithful (bits : BitVec 32) (precision : Nat) (result : BitVec width) : Prop where
  neighbour : result.toInt = withSign bits (integerPart bits) ∨
    result.toInt = withSign bits (integerPart bits + 1)
  kept : scaledFraction bits precision = 0 → result.toInt = withSign bits (integerPart bits)
  zero : biased bits = 0 → result = 0

theorem integerPart_subnormal {bits : BitVec 32} (subnormal : biased bits = 0) :
    integerPart bits = 0 := by
  have part : (fraction bits : ℚ) < 2 ^ 23 := by exact_mod_cast fraction_lt bits
  rw [integerPart, Nat.floor_eq_zero, magnitude, significand, if_pos subnormal, subnormal]
  calc (fraction bits : ℚ) * 2 ^ ((max 0 1 : Nat) - 150 : Int)
      < 2 ^ 23 * 2 ^ ((max 0 1 : Nat) - 150 : Int) := by gcongr
    _ ≤ 1 := by norm_num

theorem roundElement_faithful (positive : 0 < width) (least : 1 ≤ precision) (most : precision ≤ 31)
    {inputArray : Nat → F} {index : Nat} {noise : BitVec 32}
    (inputs : biased (fp.toBits (inputArray index)) = 0 ∨
      Roundable (fp.toBits (inputArray index)) precision ∧
        Representable width (fp.toBits (inputArray index)) precision noise) :
    Faithful (fp.toBits (inputArray index)) precision
      (roundElement fp inputArray precision index noise : BitVec width) := by
  by_cases subnormal : biased (fp.toBits (inputArray index)) = 0
  · have cleared : roundElement fp inputArray precision index noise = (0 : BitVec width) :=
      roundElement_zero fp noise subnormal
    have part := integerPart_subnormal subnormal
    constructor
    · simp [cleared, part, withSign]
    · simp [cleared, part, withSign]
    · simp [cleared]
  · obtain ⟨roundable, fits⟩ := inputs.resolve_left subnormal
    have result := process_toInt fp positive least most roundable fits
    have element : (roundElement fp inputArray precision index noise : BitVec width) =
        (processSingleStochasticRound fp width (inputArray index) noise precision
          (1#32 <<< precision - 1#32)).value := by
      simp [roundElement, process_isZero, subnormal]
    rw [← element] at result
    have near := roundingCarry_neighbour (fp.toBits (inputArray index)) noise precision
    constructor
    · rcases near with same | ⟨_, next⟩
      · exact .inl (by rw [result, same])
      · exact .inr (by rw [result, next])
    · intro whole
      rcases near with same | ⟨part, _⟩
      · rw [result, same]
      · exact absurd whole part
    · intro zero
      exact absurd zero subnormal

theorem process_monotone (positive : 0 < width) (least : 1 ≤ precision) (most : precision ≤ 31)
    {x : F} (inputs : Roundable (fp.toBits x) precision) {noise other : BitVec 32}
    (fits : Representable width (fp.toBits x) precision noise)
    (otherFits : Representable width (fp.toBits x) precision other)
    (le : noise.toNat % 2 ^ precision ≤ other.toNat % 2 ^ precision) :
    (processSingleStochasticRound fp width x noise precision
      (1#32 <<< precision - 1#32)).value.toInt.natAbs ≤
    (processSingleStochasticRound fp width x other precision
      (1#32 <<< precision - 1#32)).value.toInt.natAbs := by
  rw [process_toInt fp positive least most inputs fits,
    process_toInt fp positive least most inputs otherFits, withSign_natAbs, withSign_natAbs,
    roundingCarry_parts, roundingCarry_parts]
  apply Nat.div_le_div_right
  omega

theorem process_unbiased (positive : 0 < width) (least : 1 ≤ precision) (most : precision ≤ 31)
    {x : F} (inputs : Roundable (fp.toBits x) precision)
    (fits : ∀ noise < 2 ^ precision,
      Representable width (fp.toBits x) precision (BitVec.ofNat 32 noise)) :
    ∑ noise ∈ Finset.range (2 ^ precision),
      (processSingleStochasticRound fp width x (BitVec.ofNat 32 noise) precision
        (1#32 <<< precision - 1#32)).value.toInt =
      withSign (fp.toBits x) (scaledFloor (fp.toBits x) precision) := by
  have bound : 2 ^ precision ≤ 2 ^ 31 := Nat.pow_le_pow_right (by decide) most
  have term : ∀ noise ∈ Finset.range (2 ^ precision),
      (processSingleStochasticRound fp width x (BitVec.ofNat 32 noise) precision
        (1#32 <<< precision - 1#32)).value.toInt =
      withSign (fp.toBits x)
        ((scaledFloor (fp.toBits x) precision + noise) / 2 ^ precision) := by
    intro noise inside
    have below := Finset.mem_range.mp inside
    have masked : (BitVec.ofNat 32 noise).toNat % 2 ^ precision = noise := by
      rw [BitVec.toNat_ofNat]
      have word : noise % 2 ^ 32 = noise := Nat.mod_eq_of_lt (by omega)
      rw [word, Nat.mod_eq_of_lt below]
    rw [process_toInt fp positive least most inputs (fits noise below), roundingCarry_parts, masked]
  rw [Finset.sum_congr rfl term, sum_withSign, sum_carries _ (Nat.two_pow_pos precision)]

-- Every index is written once, with one of the two neighbours of its element; the results grow with
-- the masked noise and over all the noises add up to the scaled magnitude.
theorem stochasticRound_faithful (positive : 0 < width) (least : 1 ≤ precision)
    (most : precision ≤ 31) (inputArray : Nat → F) (outputArray : Nat → BitVec width)
    (arraySize : Nat)
    (inputs : ∀ index < arraySize, biased (fp.toBits (inputArray index)) = 0 ∨
      Roundable (fp.toBits (inputArray index)) precision ∧
        Representable width (fp.toBits (inputArray index)) precision
          (elementNoise arraySize index)) :
    (stochasticRoundWrites fp inputArray precision outputArray arraySize).writes =
        List.range arraySize ∧
      (∀ index < arraySize, Faithful (fp.toBits (inputArray index)) precision
        ((stochasticRoundWrites fp inputArray precision outputArray arraySize).cells index)) ∧
      ∀ x : F, Roundable (fp.toBits x) precision →
        (∀ noise other : BitVec 32, Representable width (fp.toBits x) precision noise →
          Representable width (fp.toBits x) precision other →
          noise.toNat % 2 ^ precision ≤ other.toNat % 2 ^ precision →
          (processSingleStochasticRound fp width x noise precision
            (1#32 <<< precision - 1#32)).value.toInt.natAbs ≤
          (processSingleStochasticRound fp width x other precision
            (1#32 <<< precision - 1#32)).value.toInt.natAbs) ∧
        ((∀ noise < 2 ^ precision,
          Representable width (fp.toBits x) precision (BitVec.ofNat 32 noise)) →
          ∑ noise ∈ Finset.range (2 ^ precision),
            (processSingleStochasticRound fp width x (BitVec.ofNat 32 noise) precision
              (1#32 <<< precision - 1#32)).value.toInt =
            withSign (fp.toBits x) (scaledFloor (fp.toBits x) precision)) := by
  refine ⟨stochasticRoundWrites_writes fp inputArray precision outputArray arraySize, ?_, ?_⟩
  · intro index below
    rw [stochasticRoundWrites_cells,
      stochasticRoundArray_correct fp inputArray precision outputArray arraySize index below]
    exact roundElement_faithful fp positive least most (inputs index below)
  · intro x roundable
    constructor
    · intro noise other fits otherFits le
      exact process_monotone fp positive least most roundable fits otherFits le
    · intro fits
      exact process_unbiased fp positive least most roundable fits

end Faithful

def roundSample : Nat → Float32.Model
  | 0 => ofWord 0#32
  | 1 => ofWord 0xC0580000#32
  | _ => ofWord 1#32

theorem roundSample_inputs (noise : BitVec 32) :
    Roundable (word (roundSample 1)) 8 ∧ Representable 8 (word (roundSample 1)) 8 noise := by
  have bits : word (roundSample 1) = 0xC0580000#32 := word_ofWord (by decide)
  have exponent : biased 0xC0580000#32 = 128 := by decide
  have part : fraction 0xC0580000#32 = 5767168 := by decide
  have size : magnitude 0xC0580000#32 = 27 / 8 := by
    rw [magnitude, significand, exponent, part]
    norm_num
  have roundable : Roundable 0xC0580000#32 8 := by
    refine { normal := by omega, finite := by omega, inside := ?_ }
    rw [size]
    norm_num
  have floor : scaledFloor 0xC0580000#32 8 = 864 := by
    rw [scaledFloor, size]
    norm_num
  rw [bits]
  refine ⟨roundable, ?_⟩
  have random := Nat.mod_lt noise.toNat (Nat.two_pow_pos 8)
  rw [Representable, roundedInteger_parts roundable.normal, floor, withSign, if_pos (by decide)]
  constructor <;> omega

theorem stochasticRound_faithful_sample :
    (stochasticRoundWrites (hostFloat default) roundSample 8 (fun _ => 0#8) 3).writes =
        List.range 3 ∧
      ∑ noise ∈ Finset.range (2 ^ 8),
        (processSingleStochasticRound (hostFloat default) 8 (roundSample 1) (BitVec.ofNat 32 noise)
          8 (1#32 <<< 8 - 1#32)).value.toInt =
        withSign (word (roundSample 1)) (scaledFloor (word (roundSample 1)) 8) := by
  have inputs : ∀ index < 3, biased (word (roundSample index)) = 0 ∨
      Roundable (word (roundSample index)) 8 ∧
        Representable 8 (word (roundSample index)) 8 (elementNoise 3 index) := by
    intro index below
    match index with
    | 0 => exact .inl (by decide)
    | 1 => exact .inr (roundSample_inputs _)
    | 2 => exact .inl (by decide)
  obtain ⟨written, _, each⟩ := stochasticRound_faithful (hostFloat default) (by decide : 0 < 8)
    (by decide : 1 ≤ 8) (by decide) roundSample (fun _ => 0#8) 3 inputs
  have unbiased := (each (roundSample 1) (roundSample_inputs 0).1).2
  exact ⟨written, unbiased fun noise _ => (roundSample_inputs _).2⟩

end NpuMatmul
