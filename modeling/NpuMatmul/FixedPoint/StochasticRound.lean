import NpuMatmul.FixedPoint.FloatArith
import NpuMatmul.Shared.Loop

set_option autoImplicit false

namespace NpuMatmul

open Loop

def xorshift32 (state : BitVec 32) : BitVec 32 :=
  let state := state ^^^ state <<< 13
  let state := state ^^^ state >>> 17
  state ^^^ state <<< 5

def calculateScaledFixedValue (mantissa : BitVec 32) (bitShift : Int) : BitVec 32 :=
  let rightShiftAmount := if 0 ≤ bitShift then bitShift.toNat else 0
  let leftShiftAmount := if bitShift < 0 then (-bitShift).toNat else 0
  let rightScaled := if bitShift < 32 then mantissa >>> rightShiftAmount else 0
  let leftScaled := if -32 < bitShift then mantissa <<< leftShiftAmount else 0
  if 0 ≤ bitShift then rightScaled else leftScaled

structure RoundResult (width : Nat) where
  value : BitVec width
  isZero : Bool

def processSingleStochasticRound {F : Type} (fp : FloatArith F) (width : Nat) (inputValue : F)
    (noise : BitVec 32) (precision : Nat) (fractionalMask : BitVec 32) : RoundResult width :=
  let rawBits := fp.toBits inputValue
  let absoluteRawBits := rawBits &&& 0x7FFFFFFF#32
  let exponentBits := absoluteRawBits >>> 23 &&& 0xFF#32
  let randomBits := noise &&& fractionalMask
  let mantissaValue := 1#32 <<< 23 ||| (absoluteRawBits &&& 0x7FFFFF#32)
  -- int - uint32_t is computed modulo 2 ^ 32 and stored back in an int.
  let bitShift := (150#32 - BitVec.ofNat 32 precision - exponentBits).toInt
  let scaledFixedValue := calculateScaledFixedValue mantissaValue bitShift
  let fractionalBitsMask := scaledFixedValue &&& fractionalMask
  let integerPartValue := scaledFixedValue >>> precision
  let roundedMagnitude :=
    integerPartValue + (fractionalBitsMask + randomBits) >>> precision
  let signBitMask := rawBits.sshiftRight 31
  let roundedInteger := (roundedMagnitude + signBitMask) ^^^ signBitMask
  { value := BitVec.ofInt width roundedInteger.toInt, isZero := exponentBits == 0#32 }

structure Generators where
  r0 : BitVec 32
  r1 : BitVec 32
  r2 : BitVec 32
  r3 : BitVec 32

def Generators.seeds : Generators :=
  { r0 := 2463534242#32, r1 := 4123546731#32, r2 := 1290384712#32, r3 := 3812403981#32 }

def Generators.advance (generators : Generators) : Generators :=
  { r0 := xorshift32 generators.r0
    r1 := xorshift32 generators.r1
    r2 := xorshift32 generators.r2
    r3 := xorshift32 generators.r3 }

def Generators.randomNoises (generators : Generators) : Nat → BitVec 32
  | 0 => generators.r0
  | 1 => generators.r1
  | 2 => generators.r2
  | _ => generators.r3

structure RoundState (width : Nat) where
  generators : Generators
  outputArray : Nat → BitVec width

section Array

variable {F : Type} (fp : FloatArith F) {width : Nat} (inputArray : Nat → F) (precision : Nat)

def roundElement (flatIndex : Nat) (noise : BitVec 32) : BitVec width :=
  let result := processSingleStochasticRound fp width (inputArray flatIndex) noise precision
    (1#32 <<< precision - 1#32)
  if result.isZero then 0 else result.value

-- One round of the loop over groups of four: i = 4 * group, j = 0..3.
def roundGroup (group : Nat) (state : RoundState width) : RoundState width :=
  let generators := state.generators.advance
  { generators := generators
    outputArray := store 4 (fun j => 4 * group + j)
      (fun j => roundElement fp inputArray precision (4 * group + j) (generators.randomNoises j))
      state.outputArray }

-- The remainder loop draws from r0 only.
def roundRemainder (start offset : Nat) (state : RoundState width) : RoundState width :=
  let noise := xorshift32 state.generators.r0
  { generators := { state.generators with r0 := noise }
    outputArray := Function.update state.outputArray (start + offset)
      (roundElement fp inputArray precision (start + offset) noise) }

def stochasticRoundArray (outputArray : Nat → BitVec width) (arraySize : Nat) :
    Nat → BitVec width :=
  let state : RoundState width := { generators := .seeds, outputArray := outputArray }
  let state := forLoop (arraySize / 4) (roundGroup fp inputArray precision) state
  let remainderStart := arraySize / 4 * 4
  (forLoop (arraySize - remainderStart) (roundRemainder fp inputArray precision remainderStart)
    state).outputArray

end Array

def elementNoise (arraySize index : Nat) : BitVec 32 :=
  if index < arraySize / 4 * 4 then
    ((Generators.advance^[index / 4 + 1]) .seeds).randomNoises (index % 4)
  else
    (xorshift32^[index - arraySize / 4 * 4 + 1]) ((Generators.advance^[arraySize / 4]) .seeds).r0

theorem elementNoise_first (n : Nat) : elementNoise n 0 = 723471715#32 := by
  unfold elementNoise
  split
  · decide
  · have none : n / 4 = 0 := by omega
    rw [none]
    decide

section Array

variable {F : Type} (fp : FloatArith F) {width : Nat} (inputArray : Nat → F) (precision : Nat)

theorem roundGroup_written (group : Nat) (state : RoundState width) (index : Nat)
    (inside : index / 4 = group) :
    (roundGroup fp inputArray precision group state).outputArray index =
      roundElement fp inputArray precision index
        (state.generators.advance.randomNoises (index % 4)) := by
  have position : 4 * group + index % 4 = index := by omega
  have apart : ∀ i j, i < 4 → j < i → 4 * group + j ≠ 4 * group + i := by omega
  have written := store_written 4 (fun j => 4 * group + j)
    (fun j => roundElement fp inputArray precision (4 * group + j)
      (state.generators.advance.randomNoises j)) state.outputArray apart (index % 4) (by omega)
  simp only [position] at written
  exact written

theorem roundGroup_other (group : Nat) (state : RoundState width) (index : Nat)
    (outside : index / 4 ≠ group) :
    (roundGroup fp inputArray precision group state).outputArray index =
      state.outputArray index := by
  apply store_other
  intro j below same
  apply outside
  omega

theorem roundGroups_correct (groups : Nat) (outputArray : Nat → BitVec width) :
    let state := forLoop groups (roundGroup fp inputArray precision)
      { generators := .seeds, outputArray := outputArray }
    state.generators = (Generators.advance^[groups]) .seeds ∧
      ∀ index < 4 * groups, state.outputArray index =
        roundElement fp inputArray precision index
          (((Generators.advance^[index / 4 + 1]) .seeds).randomNoises (index % 4)) := by
  induction groups with
  | zero => simp
  | succ groups ih =>
    obtain ⟨generators, earlier⟩ := ih
    constructor
    · simp only [forLoop_succ, roundGroup, generators, Function.iterate_succ_apply']
    · intro index below
      rw [forLoop_succ]
      by_cases last : index / 4 = groups
      · rw [roundGroup_written fp inputArray precision groups _ index last, generators, last,
          Function.iterate_succ_apply']
      · rw [roundGroup_other fp inputArray precision groups _ index last]
        exact earlier index (by omega)

theorem roundRemainders_correct (start : Nat) (state : RoundState width) (count : Nat) :
    let final := forLoop count (roundRemainder fp inputArray precision start) state
    final.generators.r0 = (xorshift32^[count]) state.generators.r0 ∧
      (∀ index < start, final.outputArray index = state.outputArray index) ∧
      ∀ offset < count, final.outputArray (start + offset) =
        roundElement fp inputArray precision (start + offset)
          ((xorshift32^[offset + 1]) state.generators.r0) := by
  induction count with
  | zero => simp
  | succ count ih =>
    obtain ⟨generator, before, earlier⟩ := ih
    simp only [forLoop_succ, roundRemainder, Function.iterate_succ_apply'] at *
    refine ⟨by rw [generator], ?_, ?_⟩
    · intro index below
      rw [Function.update_of_ne (by omega), before index below]
    · intro offset below
      by_cases last : offset = count
      · rw [last, Function.update_self, generator]
      · rw [Function.update_of_ne (by omega), earlier offset (by omega)]

theorem stochasticRoundArray_correct (outputArray : Nat → BitVec width) (arraySize index : Nat)
    (below : index < arraySize) :
    stochasticRoundArray fp inputArray precision outputArray arraySize index =
      roundElement fp inputArray precision index (elementNoise arraySize index) := by
  obtain ⟨generators, groups⟩ :=
    roundGroups_correct fp inputArray precision (arraySize / 4) outputArray
  obtain ⟨_, before, remainder⟩ := roundRemainders_correct fp inputArray precision
    (arraySize / 4 * 4) (forLoop (arraySize / 4) (roundGroup fp inputArray precision)
      { generators := .seeds, outputArray := outputArray }) (arraySize - arraySize / 4 * 4)
  unfold stochasticRoundArray elementNoise
  by_cases grouped : index < arraySize / 4 * 4
  · rw [if_pos grouped, before index grouped]
    exact groups index (by omega)
  · have offset := remainder (index - arraySize / 4 * 4) (by omega)
    have position : arraySize / 4 * 4 + (index - arraySize / 4 * 4) = index := by omega
    rw [position, generators] at offset
    rw [if_neg grouped]
    exact offset

end Array

end NpuMatmul
