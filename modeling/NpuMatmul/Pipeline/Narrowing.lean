import NpuMatmul.Pipeline.Agreement
import NpuMatmul.Pipeline.HostLines

set_option autoImplicit false

namespace NpuMatmul

open Loop Binary32

def rowLine (A : Nat → FiniteFloat) (K r : Nat) : Nat → FiniteFloat := fun k => A (r * K + k)

def columnLine (B : Nat → FiniteFloat) (N c : Nat) : Nat → FiniteFloat := fun k => B (k * N + c)

def hostFloats (values : Nat → FiniteFloat) : Nat → Float32.Model := fun i => (values i).host

section Line

variable (casts : OpenCasts) (width K : Nat) (line : Nat → FiniteFloat)

def hostTruncated : Int := truncated (word (hostRoundedMean K line casts))

-- Nothing is lost between the rounded element and its code: the casts to the mantissa type, the
-- subtraction and the cast to the unsigned type are all in range.
structure Lossless (k code : Nat) : Prop where
  element : Fits width (hostRounded K line casts k)
  finiteMean : biased (word (hostRoundedMean K line casts)) ≠ 255
  mean : Fits width (hostTruncated casts K line)
  difference : Fits width (hostRounded K line casts k - hostTruncated casts K line)
  nonneg : 0 ≤ hostRounded K line casts k - hostTruncated casts K line + 127
  below : hostRounded K line casts k - hostTruncated casts K line + 127 < 2 ^ width
  code : (code : Int) - 127 = hostRounded K line casts k - hostCentre K line casts

-- The mean is a number, and fast_pow2(8 - e) is the power of two it should be or does not matter.
structure MeanKept : Prop where
  finite : biased (word (hostMean K line casts)) ≠ 255
  scale : -119 ≤ hostExponent K line ∨
    hostExponent K line ≤ -121 ∧ |scaledMean K line casts| < 1 / 2

-- The scaled mean leaves room for the mantissa type, and beside the element for its code.
structure CodeFits (k : Nat) : Prop where
  kept : MeanKept casts K line
  upper : scaledMean K line casts < 2 ^ (width - 1) - 1 / 2
  lower : -2 ^ (width - 1) - 1 / 2 < scaledMean K line casts
  above : scaledMean K line casts < hostBit K line k + 127 + 1 / 2
  below : hostBit K line k - 2 ^ (width - 1) + 1 / 2 < scaledMean K line casts

end Line

section Mean

variable {casts : OpenCasts} {width K : Nat} {line : Nat → FiniteFloat}

theorem two_pow_large (wide : 8 ≤ width) : (128 : Int) ≤ 2 ^ (width - 1) := by
  calc (128 : Int) = 2 ^ 7 := by norm_num
    _ ≤ 2 ^ (width - 1) := pow_le_pow_right₀ (by decide) (by omega)

theorem fits_centre (wide : 8 ≤ width) :
    Fits width (hostCentre K line casts) ↔
      -2 ^ (width - 1) - 1 / 2 < scaledMean K line casts ∧
        scaledMean K line casts < 2 ^ (width - 1) - 1 / 2 := by
  have large := two_pow_large wide
  have low := @le_roundHalfAway (scaledMean K line casts) (-2 ^ (width - 1)) (by omega)
  have high := @roundHalfAway_le (scaledMean K line casts) (2 ^ (width - 1) - 1) (by omega)
  push_cast at low high
  rw [Fits, ← Int.le_sub_one_iff, hostCentre, low, high]
  constructor
  · intro fits
    exact ⟨fits.1, by linarith [fits.2]⟩
  · intro fits
    exact ⟨fits.1, by linarith [fits.2]⟩

theorem not_fits_huge (wide : 8 ≤ width) (narrow : width ≤ 128)
    (huge : 2 ^ (128 : Int) ≤ |scaledMean K line casts|) :
    ¬ Fits width (hostCentre K line casts) := by
  have bound : (2 : ℚ) ^ (width - 1) ≤ 2 ^ 127 := pow_le_pow_right₀ (by norm_num) (by omega)
  have most : (2 : ℚ) ^ (128 : Int) = 2 * 2 ^ 127 := by norm_num
  rw [fits_centre wide]
  intro fits
  have small : |scaledMean K line casts| < 2 ^ (width - 1) + 1 / 2 := by
    rw [abs_lt]
    constructor <;> linarith [fits.1, fits.2]
  have half : (1 : ℚ) / 2 < 2 ^ 127 := by norm_num
  linarith

theorem hostRoundedMean_special
    (special : biased (word (hostMean K line casts)) = 255 ∨
      biased (word (ofWord (power (-hostExponent K line + 8)))) = 255) :
    biased (word (hostRoundedMean K line casts)) = 255 := by
  have product := mul_special special
  rw [hostRoundedMean, roundAway_special product]
  exact product

theorem mean_cast_iff (wide : 8 ≤ width) (narrow : width ≤ 128) :
    (biased (word (hostRoundedMean K line casts)) ≠ 255 ∧ Fits width (hostTruncated casts K line) ∧
        hostTruncated casts K line = hostCentre K line casts) ↔
      MeanKept casts K line ∧ Fits width (hostCentre K line casts) := by
  have range := hostExponent_range K line
  by_cases finite : biased (word (hostMean K line casts)) = 255
  · constructor
    · intro cast
      exact absurd (hostRoundedMean_special (.inl finite)) cast.1
    · intro fits
      exact absurd finite fits.1.finite
  · by_cases inside : -119 ≤ hostExponent K line
    · have power : power (-hostExponent K line + 8) =
          signedPower false (-hostExponent K line + 8) := power_inside (by omega) (by omega)
      rcases @roundAway_scaled _ (-hostExponent K line + 8) finite (by omega) (by omega)
        with ⟨rounded, centre⟩ | ⟨infinite, huge⟩
      · have same : hostTruncated casts K line = hostCentre K line casts := by
          rw [hostTruncated, hostRoundedMean, power]
          exact centre
        rw [hostRoundedMean, power, same]
        constructor
        · intro cast
          exact ⟨⟨finite, .inl inside⟩, cast.2.1⟩
        · intro fits
          exact ⟨rounded, fits.2, rfl⟩
      · constructor
        · intro cast
          rw [hostRoundedMean, power] at cast
          exact absurd infinite cast.1
        · intro fits
          exact absurd fits.2 (not_fits_huge wide narrow huge)
    · by_cases lost : hostExponent K line = -120
      · -- fast_pow2(128) is an infinity.
        have infinite : biased (word (ofWord (power (-hostExponent K line + 8)))) = 255 := by
          rw [lost, power_inside (by decide) (by decide),
            word_signedPower false (by decide) (by decide)]
          decide
        constructor
        · intro cast
          exact absurd (hostRoundedMean_special (.inr infinite)) cast.1
        · intro fits
          have scale := fits.1.scale
          omega
      · obtain ⟨rounded, zero⟩ := @roundAway_flipped _ (-hostExponent K line + 8) finite
          (by omega) (by omega)
        have same : hostTruncated casts K line = hostCentre K line casts ↔
            |scaledMean K line casts| < 1 / 2 := zero
        constructor
        · intro cast
          exact ⟨⟨finite, .inr ⟨by omega, same.mp cast.2.2⟩⟩, cast.2.2 ▸ cast.2.1⟩
        · intro fits
          have small := fits.1.scale.resolve_left inside
          have centre := same.mpr small.2
          exact ⟨rounded, centre.symm ▸ fits.2, centre⟩

theorem code_of_cast (positive : 0 < width) {bit : Int} {code : Nat}
    (stored : code = (BitVec.ofInt width bit -
        castToSigned casts width (word (hostRoundedMean K line casts)) +
          BitVec.ofNat width 127).toNat)
    (finite : biased (word (hostRoundedMean K line casts)) ≠ 255)
    (fits : Fits width (hostTruncated casts K line))
    (nonneg : 0 ≤ bit - hostTruncated casts K line + 127)
    (small : bit - hostTruncated casts K line + 127 < 2 ^ width) :
    (code : Int) = bit - hostTruncated casts K line + 127 := by
  have mean : castToSigned casts width (word (hostRoundedMean K line casts)) =
      BitVec.ofInt width (hostTruncated casts K line) := if_pos ⟨finite, fits⟩
  rw [stored, staged_toNat, mean, BitVec.toInt_ofInt_eq_self positive fits.1 fits.2]
  exact Int.emod_eq_of_lt nonneg small

theorem lossless_iff (wide : 8 ≤ width) (narrow : width ≤ 128) {k code : Nat} (inside : k < K)
    (stored : code = (BitVec.ofInt width (hostBit K line k) -
        castToSigned casts width (word (hostRoundedMean K line casts)) +
          BitVec.ofNat width 127).toNat) :
    Lossless casts width K line k code ↔ CodeFits casts width K line k := by
  have bit := abs_hostBit_le line inside
  have large := two_pow_large wide
  have double : (2 : Int) ^ width = 2 * 2 ^ (width - 1) := by
    rw [← Int.pow_succ']
    congr 1
    omega
  have above := @roundHalfAway_le (scaledMean K line casts) (hostBit K line k + 127) (by
    rw [abs_le] at bit
    omega)
  have below := @le_roundHalfAway (scaledMean K line casts)
    (hostBit K line k - 2 ^ (width - 1) + 1) (by
      rw [abs_le] at bit
      omega)
  have cast := @mean_cast_iff casts width K line wide narrow
  rw [fits_centre wide] at cast
  have rounded := hostRounded_bit line casts inside
  rw [abs_le] at bit
  push_cast at above below
  rw [← hostCentre] at above below
  constructor
  · intro lossless
    obtain ⟨_, finite, mean, difference, nonneg, small, same⟩ := lossless
    rw [rounded] at difference nonneg small same
    have held := code_of_cast (by omega) stored finite mean nonneg small
    have centre : hostTruncated casts K line = hostCentre K line casts := by omega
    obtain ⟨kept, lower, upper⟩ := cast.mp ⟨finite, mean, centre⟩
    rw [centre] at difference nonneg
    refine ⟨kept, upper, lower, above.mp (by omega), ?_⟩
    have room := below.mp (by have top := difference.2; omega)
    linarith
  · intro fits
    obtain ⟨kept, upper, lower, enough, under⟩ := fits
    obtain ⟨finite, mean, centre⟩ := cast.mpr ⟨kept, lower, upper⟩
    have top := above.mpr enough
    have bottom := below.mpr (by linarith)
    have nonneg : 0 ≤ hostBit K line k - hostTruncated casts K line + 127 := by omega
    have small : hostBit K line k - hostTruncated casts K line + 127 < 2 ^ width := by omega
    have held := code_of_cast (by omega) stored finite mean nonneg small
    constructor
    · rw [rounded]
      constructor <;> omega
    · exact finite
    · exact mean
    · rw [rounded]
      constructor <;> omega
    · rw [rounded]
      exact nonneg
    · rw [rounded]
      exact small
    · rw [rounded, held, centre]
      ring

theorem codeFits_of_small (wide : 8 ≤ width) {k : Nat} (inside : k < K)
    (kept : MeanKept casts K line) (small : |scaledMean K line casts| < 125 + 1 / 2) :
    CodeFits casts width K line k := by
  have bit := abs_hostBit_le line inside
  rw [abs_le] at bit
  have low : (-2 : ℚ) ≤ hostBit K line k := by exact_mod_cast bit.1
  have high : (hostBit K line k : ℚ) ≤ 2 := by exact_mod_cast bit.2
  have large : (128 : ℚ) ≤ 2 ^ (width - 1) := by exact_mod_cast two_pow_large wide
  rw [abs_lt] at small
  constructor
  · exact kept
  all_goals linarith [small.1, small.2]

end Mean

section Kernels

variable (casts : OpenCasts) (memory : TiledMemory Float32.Model)
  (other : Int8Memory Float32.Model) (A B : Nat → FiniteFloat) (M K N : Nat) (splits : Splits)

def stagedCodeA (r k : Nat) : Nat :=
  let kBlock := K / splits.k
  let call := tiledCall (hostFloat casts) memory (hostFloats A) (hostFloats B) M K N splits (k / kBlock)
  readWord call.a.bytes (r * kBlock + k % kBlock)

def stagedCodeB (c k : Nat) : Nat :=
  let kBlock := K / splits.k
  let call := tiledCall (hostFloat casts) memory (hostFloats A) (hostFloats B) M K N splits (k / kBlock)
  readByte call.b.bytes (c * kBlock + k % kBlock)

structure TiledLossless : Prop where
  rows : ∀ r < M / splits.m, ∀ k < splits.k * (K / splits.k),
    Lossless casts 16 K (rowLine A K r) k (stagedCodeA casts memory A B M K N splits r k)
  columns : ∀ c < N / splits.n, ∀ k < splits.k * (K / splits.k),
    Lossless casts 8 K (columnLine B N c) k (stagedCodeB casts memory A B M K N splits c k)

structure Int8Lossless : Prop where
  rows : ∀ r < M, ∀ k < K, Lossless casts 8 K (rowLine A K r) k (readByte
    (int8Call (hostFloat casts) other (hostFloats A) (hostFloats B) M K N).a.bytes (r * K + k))
  columns : ∀ c < N, ∀ k < K, Lossless casts 8 K (columnLine B N c) k (readByte
    (int8Call (hostFloat casts) other (hostFloats A) (hostFloats B) M K N).b.bytes (c * K + k))

def LinesFit (width : Nat) (lines : Nat → Nat → FiniteFloat) (rows count : Nat) : Prop :=
  ∀ r < rows, ∀ k < count, CodeFits casts width K (lines r) k

variable {M K N splits}

theorem host_row {width : Nat} (arrays : BlockArrays width Float32.Model) {r k : Nat}
    (below : r < M) (inside : k < K) :
    (encoded (hostFloat casts) arrays (rowShape M K) (hostFloats A) 0 8).mantissa (r * K + k) =
      BitVec.ofInt width (hostBit K (rowLine A K r) k) -
        castToSigned casts width (word (hostRoundedMean K (rowLine A K r) casts)) :=
  host_mantissa casts (encoded_row (hostFloat casts) arrays (hostFloats A) below (by omega))
    (fun _ _ => rfl) inside

theorem host_column {width : Nat} (arrays : BlockArrays width Float32.Model)
    (buffer : Nat → Float32.Model) {c k : Nat} (below : c < N) (inside : k < K) :
    (encoded (hostFloat casts) arrays (rowShape N K) (transposed (hostFloats B) N K buffer) 0
        8).mantissa (c * K + k) =
      BitVec.ofInt width (hostBit K (columnLine B N c) k) -
        castToSigned casts width (word (hostRoundedMean K (columnLine B N c) casts)) :=
  host_mantissa casts (encoded_row (hostFloat casts) arrays _ below (by omega))
    (fun _ within => transposed_apply (hostFloats B) buffer below within) inside

theorem covered_lt {k : Nat} (covered : k < splits.k * (K / splits.k)) : k < K :=
  lt_of_lt_of_le covered (Nat.mul_div_le K splits.k)

theorem stagedCodeA_eq {r k : Nat} (below : r < M / splits.m)
    (covered : k < splits.k * (K / splits.k)) :
    stagedCodeA casts memory A B M K N splits r k =
      (BitVec.ofInt 16 (hostBit K (rowLine A K r) k) -
        castToSigned casts 16 (word (hostRoundedMean K (rowLine A K r) casts)) +
          BitVec.ofNat 16 127).toNat := by
  have inside := covered_lt covered
  have tall : r < M := lt_of_lt_of_le below (Nat.div_le_self M splits.m)
  obtain ⟨_, offset, position⟩ := rowMajor_split covered
  simp only [stagedCodeA, tiledCall, fullyConnectedCall]
  rw [readWord_wordBytes _ (rowMajor_lt below offset), packCodes_apply _ _ _ below offset,
    Nat.add_assoc, position, tiledBlockA, host_row casts A memory.blockA tall inside]

theorem stagedCodeB_eq {c k : Nat} (below : c < N / splits.n)
    (covered : k < splits.k * (K / splits.k)) :
    stagedCodeB casts memory A B M K N splits c k =
      (BitVec.ofInt 8 (hostBit K (columnLine B N c) k) -
        castToSigned casts 8 (word (hostRoundedMean K (columnLine B N c) casts)) +
          BitVec.ofNat 8 127).toNat := by
  have inside := covered_lt covered
  have wide : c < N := lt_of_lt_of_le below (Nat.div_le_self N splits.n)
  obtain ⟨_, offset, position⟩ := rowMajor_split covered
  simp only [stagedCodeB, tiledCall, fullyConnectedCall]
  rw [readByte_bytesOf _ (rowMajor_lt below offset), packCodes_apply _ _ _ below offset,
    Nat.add_assoc, position, tiledBlockB,
    host_column casts B memory.blockB _ wide inside]

theorem tiledLossless_iff :
    TiledLossless casts memory A B M K N splits ↔
      LinesFit casts K 16 (rowLine A K) (M / splits.m) (splits.k * (K / splits.k)) ∧
        LinesFit casts K 8 (columnLine B N) (N / splits.n) (splits.k * (K / splits.k)) := by
  have atA {r k : Nat} (below : r < M / splits.m) (covered : k < splits.k * (K / splits.k)) :=
    lossless_iff (by decide) (by decide) (covered_lt covered)
      (stagedCodeA_eq casts memory A B (N := N) below covered)
  have atB {c k : Nat} (below : c < N / splits.n) (covered : k < splits.k * (K / splits.k)) :=
    lossless_iff (by decide) (by decide) (covered_lt covered)
      (stagedCodeB_eq casts memory A B (M := M) below covered)
  constructor
  · intro lossless
    constructor
    · intro r below k covered
      exact (atA below covered).mp (lossless.rows r below k covered)
    · intro c below k covered
      exact (atB below covered).mp (lossless.columns c below k covered)
  · intro fits
    constructor
    · intro r below k covered
      exact (atA below covered).mpr (fits.1 r below k covered)
    · intro c below k covered
      exact (atB below covered).mpr (fits.2 c below k covered)

theorem int8Lossless_iff :
    Int8Lossless casts other A B M K N ↔
      LinesFit casts K 8 (rowLine A K) M K ∧ LinesFit casts K 8 (columnLine B N) N K := by
  obtain ⟨stagedA, stagedB⟩ := int8Call_staged (hostFloat casts) (M := M) (K := K) (N := N) other
    (hostFloats A) (hostFloats B)
  have atA {r k : Nat} (below : r < M) (inside : k < K) :
      Lossless casts 8 K (rowLine A K r) k (readByte (int8Call (hostFloat casts) other
        (hostFloats A) (hostFloats B) M K N).a.bytes (r * K + k)) ↔
        CodeFits casts 8 K (rowLine A K r) k := by
    apply lossless_iff (by decide) (by decide) inside
    rw [readByte, stagedA _ (rowMajor_lt below inside), int8BlockA,
      host_row casts A other.blockA below inside]
  have atB {c k : Nat} (below : c < N) (inside : k < K) :
      Lossless casts 8 K (columnLine B N c) k (readByte (int8Call (hostFloat casts) other
        (hostFloats A) (hostFloats B) M K N).b.bytes (c * K + k)) ↔
        CodeFits casts 8 K (columnLine B N c) k := by
    apply lossless_iff (by decide) (by decide) inside
    rw [readByte, stagedB _ (rowMajor_lt below inside), int8BlockB,
      host_column casts B other.blockB _ below inside]
  constructor
  · intro lossless
    constructor
    · intro r below k inside
      exact (atA below inside).mp (lossless.rows r below k inside)
    · intro c below k inside
      exact (atB below inside).mp (lossless.columns c below k inside)
  · intro fits
    constructor
    · intro r below k inside
      exact (atA below inside).mpr (fits.1 r below k inside)
    · intro c below k inside
      exact (atB below inside).mpr (fits.2 c below k inside)

-- Both kernels send lossless codes just when the scaled mean of every row and column they
-- stage leaves room for them.
theorem codes_lossless_iff :
    (TiledLossless casts memory A B M K N splits ↔
        LinesFit casts K 16 (rowLine A K) (M / splits.m) (splits.k * (K / splits.k)) ∧
          LinesFit casts K 8 (columnLine B N) (N / splits.n) (splits.k * (K / splits.k))) ∧
      (Int8Lossless casts other A B M K N ↔
        LinesFit casts K 8 (rowLine A K) M K ∧ LinesFit casts K 8 (columnLine B N) N K) :=
  ⟨tiledLossless_iff casts memory A B, int8Lossless_iff casts other A B⟩

end Kernels

def oneAndAHalf : FiniteFloat := { bits := 0x3FC00000#32, finite := by decide }

theorem oneAndAHalf_mean :
    scaledMean 1 (rowLine (fun _ => oneAndAHalf) 1 0) default = 192 := by
  have mean : word (hostMean 1 (rowLine (fun _ => oneAndAHalf) 1 0) default) = 0x3FC00000#32 := by
    decide
  have field : maxField 1 (fun _ => 0x3FC00000#32) = 127 := by decide
  have exponent : hostExponent 1 (rowLine (fun _ => oneAndAHalf) 1 0) = 1 := by
    simp only [hostExponent, fieldExponent, rowLine, oneAndAHalf, field]
    rfl
  have sign : negative 0x3FC00000#32 = false := by decide
  have biased : biased 0x3FC00000#32 = 127 := by decide
  have part : fraction 0x3FC00000#32 = 2 ^ 22 := by decide
  rw [scaledMean, mean, exponent, value, sign, magnitude, significand, biased, part]
  norm_num

theorem oneAndAHalf_loses :
    ¬ TiledLossless default default (fun _ => oneAndAHalf) (fun _ => oneAndAHalf) 1 1 1 whole ∧
      ¬ Int8Lossless default default (fun _ => oneAndAHalf) (fun _ => oneAndAHalf) 1 1 1 := by
  have lost (width : Nat) :
      ¬ CodeFits default width 1 (rowLine (fun _ => oneAndAHalf) 1 0) 0 := by
    intro fits
    have above := fits.above
    have bit := abs_hostBit_le (rowLine (fun _ => oneAndAHalf) 1 0) (by decide : 0 < 1)
    have small : (hostBit 1 (rowLine (fun _ => oneAndAHalf) 1 0) 0 : ℚ) ≤ 2 := by
      exact_mod_cast (abs_le.mp bit).2
    rw [oneAndAHalf_mean] at above
    linarith
  constructor
  · intro lossless
    have fits := (tiledLossless_iff default default _ _).mp lossless
    exact lost 16 (fits.1 0 (by decide) 0 (by decide))
  · intro lossless
    have fits := (int8Lossless_iff default default _ _).mp lossless
    exact lost 8 (fits.1 0 (by decide) 0 (by decide))

end NpuMatmul
