import Mathlib.Algebra.Order.BigOperators.Group.Finset
import NpuMatmul.Pipeline.Narrowing

set_option autoImplicit false

namespace NpuMatmul

open Loop Binary32

theorem abs_sum_le (n : Nat) (f : Nat → Int) (bound : Int) (small : ∀ k < n, |f k| ≤ bound) :
    |∑ k ∈ Finset.range n, f k| ≤ n * bound := by
  calc |∑ k ∈ Finset.range n, f k| ≤ ∑ k ∈ Finset.range n, |f k| := Finset.abs_sum_le_sum_abs _ _
    _ ≤ ∑ k ∈ Finset.range n, bound :=
        Finset.sum_le_sum fun k member => small k (Finset.mem_range.mp member)
    _ = n * bound := by simp

-- What the two 16-bit words with offset 32768 can hold.
def InSixteenBits (z : Int) : Prop := -32768 ≤ z ∧ z ≤ 32767

instance (z : Int) : Decidable (InSixteenBits z) := by
  unfold InSixteenBits
  infer_instance

section Line

variable (casts : OpenCasts) (width K : Nat) (line : Nat → FiniteFloat)

def hostCast : Int := (castToSigned casts width (word (hostRoundedMean K line casts))).toInt

-- What the cast of the rounded mean and the unsigned type add to a code that does not fit them.
def hostNarrowing (k : Nat) : Int :=
  let held := hostBit K line k - hostCast casts width K line + 127
  held % 2 ^ width - held + (hostCentre K line casts - hostCast casts width K line)

def hostShare (k : Nat) : Int := hostBit K line k + hostNarrowing casts width K line k

def hostCode (k : Nat) : Int :=
  (hostBit K line k - hostCast casts width K line + 127) % 2 ^ width - 127

theorem hostCode_share (k : Nat) :
    hostCode casts width K line k =
      hostShare casts width K line k - hostCentre K line casts := by
  rw [hostCode, hostShare, hostNarrowing]
  ring

variable {casts width K line} in
theorem hostCode_fits (wide : 8 ≤ width) (narrow : width ≤ 128) {k : Nat} (inside : k < K)
    (fits : CodeFits casts width K line k) :
    hostCode casts width K line k = hostBit K line k - hostCentre K line casts := by
  have lossless := (lossless_iff wide narrow inside rfl).mpr fits
  have code := lossless.code
  rw [hostRounded_bit line casts inside, staged_toNat] at code
  exact code

variable {casts width K line} in
theorem hostShare_fits (wide : 8 ≤ width) (narrow : width ≤ 128) {k : Nat} (inside : k < K)
    (fits : CodeFits casts width K line k) :
    hostShare casts width K line k = hostBit K line k := by
  have code := hostCode_fits wide narrow inside fits
  rw [hostCode_share] at code
  linarith

end Line

section Sums

variable (casts : OpenCasts) (width K : Nat) (lineA lineB : Nat → FiniteFloat) (start n : Nat)

def codeSum : Int :=
  ∑ k ∈ Finset.range n,
    hostCode casts width K lineA (start + k) * hostCode casts 8 K lineB (start + k)

def meanProduct : Int := n * hostCentre K lineA casts * hostCentre K lineB casts

def spread : Int :=
  ∑ k ∈ Finset.range n,
    (hostShare casts width K lineA (start + k) * hostShare casts 8 K lineB (start + k) -
      hostCentre K lineA casts * hostShare casts 8 K lineB (start + k) -
        hostCentre K lineB casts * hostShare casts width K lineA (start + k))

def margin : Int := n * (2 * (|hostCentre K lineA casts| + |hostCentre K lineB casts| + 2))

theorem codeSum_split :
    codeSum casts width K lineA lineB start n =
      meanProduct casts K lineA lineB n + spread casts width K lineA lineB start n := by
  have constant : meanProduct casts K lineA lineB n =
      ∑ _k ∈ Finset.range n, hostCentre K lineA casts * hostCentre K lineB casts := by
    rw [Finset.sum_const, Finset.card_range, nsmul_eq_mul, meanProduct, mul_assoc]
  rw [constant, spread, ← Finset.sum_add_distrib, codeSum]
  apply Finset.sum_congr rfl
  intro k _
  rw [hostCode_share, hostCode_share]
  ring

structure BlockFits : Prop where
  left : ∀ k < n, CodeFits casts width K lineA (start + k)
  right : ∀ k < n, CodeFits casts 8 K lineB (start + k)

structure SmallMeans : Prop where
  fits : BlockFits casts width K lineA lineB start n
  inside : |meanProduct casts K lineA lineB n| + margin casts K lineA lineB n ≤ 32767

structure LargeMeans : Prop where
  fits : BlockFits casts width K lineA lineB start n
  outside : 32768 < |meanProduct casts K lineA lineB n| - margin casts K lineA lineB n

variable {casts width K lineA lineB start n}

theorem abs_terms_le {a b x y : Int} (left : |a| ≤ 2) (right : |b| ≤ 2) :
    |a * b - x * b - y * a| ≤ 2 * (|x| + |y| + 2) := by
  have products : |a * b| ≤ 2 * 2 := by
    rw [abs_mul]
    exact mul_le_mul left right (abs_nonneg b) (by decide)
  have first : |x * b| ≤ |x| * 2 := by
    rw [abs_mul]
    exact mul_le_mul_of_nonneg_left right (abs_nonneg x)
  have second : |y * a| ≤ |y| * 2 := by
    rw [abs_mul]
    exact mul_le_mul_of_nonneg_left left (abs_nonneg y)
  rw [abs_le] at products first second ⊢
  constructor <;> linarith

theorem abs_spread_le (wide : 8 ≤ width) (narrow : width ≤ 128) (inside : start + n ≤ K)
    (fits : BlockFits casts width K lineA lineB start n) :
    |spread casts width K lineA lineB start n| ≤ margin casts K lineA lineB n := by
  apply abs_sum_le
  intro k below
  rw [hostShare_fits wide narrow (by omega) (fits.left k below),
    hostShare_fits (by decide) (by decide) (by omega) (fits.right k below)]
  exact abs_terms_le (abs_hostBit_le lineA (by omega)) (abs_hostBit_le lineB (by omega))

theorem codeSum_small (wide : 8 ≤ width) (narrow : width ≤ 128) (inside : start + n ≤ K)
    (small : SmallMeans casts width K lineA lineB start n) :
    InSixteenBits (codeSum casts width K lineA lineB start n) := by
  have spread := abs_spread_le wide narrow inside small.fits
  have within := small.inside
  have sum := abs_add_le (meanProduct casts K lineA lineB n)
    (NpuMatmul.spread casts width K lineA lineB start n)
  rw [← codeSum_split] at sum
  have held := abs_le.mp (le_trans sum (by linarith : _ ≤ (32767 : Int)))
  constructor
  · linarith [held.1]
  · exact held.2

theorem codeSum_large (wide : 8 ≤ width) (narrow : width ≤ 128) (inside : start + n ≤ K)
    (large : LargeMeans casts width K lineA lineB start n) :
    ¬ InSixteenBits (codeSum casts width K lineA lineB start n) := by
  intro held
  have spread := abs_spread_le wide narrow inside large.fits
  have outside := large.outside
  have difference := abs_sub_abs_le_abs_sub (meanProduct casts K lineA lineB n)
    (-NpuMatmul.spread casts width K lineA lineB start n)
  rw [abs_neg, sub_neg_eq_add, ← codeSum_split] at difference
  have most : |codeSum casts width K lineA lineB start n| ≤ 32768 := by
    rw [abs_le]
    constructor
    · exact held.1
    · linarith [held.2]
  linarith

end Sums

section Kernels

variable (casts : OpenCasts) (memory : TiledMemory Float32.Model)
  (other : Int8Memory Float32.Model) (A B : Nat → FiniteFloat) (M K N : Nat) (splits : Splits)

def TiledAccumulates : Prop :=
  ∀ step < splits.k, ∀ r < M / splits.m, ∀ c < N / splits.n,
    let kBlock := K / splits.k
    let call := tiledCall (hostFloat casts) memory (hostFloats A) (hostFloats B) M K N splits step
    InSixteenBits (∑ k ∈ Finset.range kBlock,
      ((readWord call.a.bytes (r * kBlock + k) : Int) - 127) *
        ((readByte call.b.bytes (c * kBlock + k) : Int) - 127))

def Int8Accumulates : Prop :=
  ∀ r < M, ∀ c < N,
    let call := int8Call (hostFloat casts) other (hostFloats A) (hostFloats B) M K N
    InSixteenBits (∑ k ∈ Finset.range K,
      ((readByte call.a.bytes (r * K + k) : Int) - 127) *
        ((readByte call.b.bytes (c * K + k) : Int) - 127))

def TiledBlocks (P : (lineA lineB : Nat → FiniteFloat) → (start n : Nat) → Prop) : Prop :=
  ∀ step < splits.k, ∀ r < M / splits.m, ∀ c < N / splits.n,
    P (rowLine A K r) (columnLine B N c) (step * (K / splits.k)) (K / splits.k)

def Int8Blocks (P : (lineA lineB : Nat → FiniteFloat) → (start n : Nat) → Prop) : Prop :=
  ∀ r < M, ∀ c < N, P (rowLine A K r) (columnLine B N c) 0 K

def SplitHolds (width : Nat) (lineA lineB : Nat → FiniteFloat) (start n : Nat) : Prop :=
  InSixteenBits
    (meanProduct casts K lineA lineB n + spread casts width K lineA lineB start n)

variable {M K N splits}

theorem tiled_codeSum {step r c : Nat} (early : step < splits.k) (below : r < M / splits.m)
    (inside : c < N / splits.n) :
    ∑ k ∈ Finset.range (K / splits.k),
        ((readWord (tiledCall (hostFloat casts) memory (hostFloats A) (hostFloats B) M K N splits
            step).a.bytes (r * (K / splits.k) + k) : Int) - 127) *
          ((readByte (tiledCall (hostFloat casts) memory (hostFloats A) (hostFloats B) M K N splits
            step).b.bytes (c * (K / splits.k) + k) : Int) - 127) =
      codeSum casts 16 K (rowLine A K r) (columnLine B N c) (step * (K / splits.k))
        (K / splits.k) := by
  apply Finset.sum_congr rfl
  intro k member
  have within := Finset.mem_range.mp member
  have covered := rowMajor_lt early within
  have left := stagedCodeA_eq casts memory A B (N := N) below covered
  have right := stagedCodeB_eq casts memory A B (M := M) inside covered
  simp only [stagedCodeA, stagedCodeB, rowMajor_div step within, rowMajor_mod step within]
    at left right
  rw [left, right, staged_toNat, staged_toNat]
  rfl

theorem int8_codeSum {r c : Nat} (below : r < M) (inside : c < N) :
    ∑ k ∈ Finset.range K,
        ((readByte (int8Call (hostFloat casts) other (hostFloats A) (hostFloats B) M K N).a.bytes
            (r * K + k) : Int) - 127) *
          ((readByte (int8Call (hostFloat casts) other (hostFloats A) (hostFloats B) M K N).b.bytes
            (c * K + k) : Int) - 127) =
      codeSum casts 8 K (rowLine A K r) (columnLine B N c) 0 K := by
  obtain ⟨stagedA, stagedB⟩ := int8Call_staged (hostFloat casts) (M := M) (K := K) (N := N) other
    (hostFloats A) (hostFloats B)
  apply Finset.sum_congr rfl
  intro k member
  have within := Finset.mem_range.mp member
  rw [readByte, readByte, stagedA _ (rowMajor_lt below within), stagedB _ (rowMajor_lt inside within),
    int8BlockA, int8BlockB, host_row casts A other.blockA below within,
    host_column casts B other.blockB _ inside within, Nat.zero_add]
  exact congrArg₂ (fun left right : Int => (left - 127) * (right - 127))
    (staged_toNat _ _) (staged_toNat _ _)

theorem tiledAccumulates_iff :
    TiledAccumulates casts memory A B M K N splits ↔
      TiledBlocks A B M K N splits (SplitHolds casts K 16) := by
  constructor
  · intro held step early r below c inside
    rw [SplitHolds, ← codeSum_split, ← tiled_codeSum casts memory A B early below inside]
    exact held step early r below c inside
  · intro held step early r below c inside
    have here := held step early r below c inside
    rw [SplitHolds, ← codeSum_split, ← tiled_codeSum casts memory A B early below inside] at here
    exact here

theorem int8Accumulates_iff :
    Int8Accumulates casts other A B M K N ↔ Int8Blocks A B M K N (SplitHolds casts K 8) := by
  constructor
  · intro held r below c inside
    rw [SplitHolds, ← codeSum_split, ← int8_codeSum casts other A B below inside]
    exact held r below c inside
  · intro held r below c inside
    have here := held r below c inside
    rw [SplitHolds, ← codeSum_split, ← int8_codeSum casts other A B below inside] at here
    exact here

theorem block_inside {k step : Nat} (early : step < k) : step * (K / k) + K / k ≤ K := by
  calc step * (K / k) + K / k = (step + 1) * (K / k) := by ring
    _ ≤ k * (K / k) := Nat.mul_le_mul_right _ early
    _ ≤ K := Nat.mul_div_le K k

end Kernels

-- Two elements 1.5 and two elements 0: a mean of 96 codes.
def skewed (i : Nat) : FiniteFloat := if i < 2 then oneAndAHalf else zero

theorem skewed_lines : rowLine skewed 4 0 = skewed ∧ columnLine skewed 1 0 = skewed := by
  constructor <;> funext k <;> simp [rowLine, columnLine]

theorem skewed_fits {width : Nat} (wide : 8 ≤ width) :
    scaledMean 4 skewed default = 96 ∧ ∀ k < 4, CodeFits default width 4 skewed k := by
  have mean : word (hostMean 4 skewed default) = 0x3F400000#32 := by decide
  have field : maxField 4 (fun k => (skewed k).bits) = 127 := by decide
  have exponent : hostExponent 4 skewed = 1 := by
    rw [hostExponent, fieldExponent, field]
    rfl
  have sign : negative 0x3F400000#32 = false := by decide
  have biased : biased 0x3F400000#32 = 126 := by decide
  have part : fraction 0x3F400000#32 = 2 ^ 22 := by decide
  have scaled : scaledMean 4 skewed default = 96 := by
    rw [scaledMean, exponent, mean, value, sign, magnitude, significand, biased, part]
    norm_num
  refine ⟨scaled, fun k below => codeFits_of_small wide below ?_ ?_⟩
  · constructor
    · rw [mean, biased]
      decide
    · left
      rw [exponent]
      decide
  · rw [scaled]
    norm_num

end NpuMatmul
