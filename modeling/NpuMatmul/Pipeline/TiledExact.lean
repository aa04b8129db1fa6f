import Mathlib.Algebra.BigOperators.Ring.Finset
import NpuMatmul.Pipeline.KernelSpec

set_option autoImplicit false

namespace NpuMatmul

open Loop

section Codes

variable {F : Type} (fp : FloatArith F) (memory : TiledMemory F)

def codeA (A : Nat → F) (M K row k : Nat) : Int :=
  ((tiledBlockA fp memory A M K).mantissa (row * K + k) + 127#16).toNat - 127

def codeB (B : Nat → F) (K N col k : Nat) : Int :=
  ((tiledBlockB fp memory B K N).mantissa (col * K + k) + 127#8).toNat - 127

def codeProduct (A B : Nat → F) (M K N row col k : Nat) : Int :=
  codeA fp memory A M K row k * codeB fp memory B K N col k

theorem centredProduct_tiled (A B : Nat → F) {M K N : Nat} {splits : Splits} (step : Nat)
    {row col : Nat} (below : row < M / splits.m) (inside : col < N / splits.n) :
    centredProduct (K / splits.k) (tiledCall fp memory A B M K N splits step).a.bytes
        (tiledCall fp memory A B M K N splits step).b.bytes row col =
      32768 + ∑ k ∈ Finset.range (K / splits.k),
        codeProduct fp memory A B M K N row col (step * (K / splits.k) + k) := by
  unfold centredProduct
  refine congrArg (32768 + ·) (Finset.sum_congr rfl ?_)
  intro k member
  have within := Finset.mem_range.mp member
  simp only [tiledCall, fullyConnectedCall]
  rw [readWord_wordBytes _ (rowMajor_lt below within),
    readByte_bytesOf _ (rowMajor_lt inside within),
    packCodes_apply _ step _ below within, packCodes_apply _ step _ inside within]
  simp [codeProduct, codeA, codeB, Nat.add_assoc]

-- Every graphExecute of the call returns the product of its operands, none saturated.
def Multiplies (backend : Backend) (memory : TiledMemory F) (A B : Nat → F) (M K N : Nat)
    (splits : Splits) : Prop :=
  ∀ step < splits.k, ComputesProduct backend (M / splits.m) (K / splits.k) (N / splits.n)
    (tiledCall fp memory A B M K N splits step)

end Codes

section Memory

variable {F : Type} (fp : FloatArith F) (memory other : TiledMemory F) {M K N : Nat}

theorem codeA_memory (A : Nat → F) {row k : Nat} (below : row < M) (within : k < K) :
    codeA fp memory A M K row k = codeA fp other A M K row k := by
  have left := (encoded_row fp memory.blockA A below (by omega)).mantissa k within
  have right := (encoded_row fp other.blockA A below (by omega)).mantissa k within
  rw [codeA, codeA, tiledBlockA, tiledBlockA, left, right]

theorem codeB_memory (B : Nat → F) {col k : Nat} (inside : col < N) (within : k < K) :
    codeB fp memory B K N col k = codeB fp other B K N col k := by
  have left := (encoded_row fp memory.blockB (transposed B N K fun _ => zeroFloat fp) inside
    (by omega)).mantissa k within
  have right := (encoded_row fp other.blockB (transposed B N K fun _ => zeroFloat fp) inside
    (by omega)).mantissa k within
  rw [codeB, codeB, tiledBlockB, tiledBlockB, left, right]

end Memory

section Rational

def row (A : Nat → ℚ) (K r : Nat) : Nat → ℚ := fun k => A (r * K + k)

def column (B : Nat → ℚ) (N c : Nat) : Nat → ℚ := fun k => B (k * N + c)

theorem fittedExponent_congr {n : Nat} {values others : Nat → ℚ}
    (same : ∀ i < n, values i = others i) : fittedExponent n values = fittedExponent n others := by
  have fields : ((Finset.range n).sup fun i => Binary32.biased (Binary32.encode (values i))) =
      (Finset.range n).sup fun i => Binary32.biased (Binary32.encode (others i)) := by
    apply Finset.sup_congr rfl
    intro i member
    rw [same i (Finset.mem_range.mp member)]
  simp only [fittedExponent, fields]

theorem average_congr {n : Nat} {values others : Nat → ℚ}
    (same : ∀ i < n, values i = others i) : average n values = average n others := by
  unfold average
  rw [Finset.sum_congr rfl fun i member => same i (Finset.mem_range.mp member)]

variable (host : Unspecified)

theorem rowStats_exponent (values : Nat → ℚ) (K r : Nat) :
    (rowStats (exact host) values K r).exponent = fittedExponent K (row values K r) := by
  rw [← blockStats_row (r + 1), blockStats_exponent]
  simp only [rowShape_count, rowShape_element]
  rfl

theorem rowStats_mean (values : Nat → ℚ) (K r : Nat) :
    (rowStats (exact host) values K r).mean (exact host) = average K (row values K r) := by
  rw [← blockStats_row (r + 1), blockStats_mean]
  simp only [rowShape_count, rowShape_element]
  rfl

theorem transposed_row (B buffer : Nat → ℚ) {K N c : Nat} (inside : c < N) :
    ∀ k < K, row (transposed B N K buffer) K c k = column B N c k :=
  fun _ within => transposed_apply B buffer inside within

theorem transposed_exponent (B buffer : Nat → ℚ) {K N c : Nat} (inside : c < N) :
    fittedExponent K (row (transposed B N K buffer) K c) = fittedExponent K (column B N c) :=
  fittedExponent_congr (transposed_row B buffer inside)

theorem transposed_mean (B buffer : Nat → ℚ) {K N c : Nat} (inside : c < N) :
    average K (row (transposed B N K buffer) K c) = average K (column B N c) :=
  average_congr (transposed_row B buffer inside)

-- The rounding bit and the rounded mean of one line of K values, at 8 fractional bits.
def lineBit (n : Nat) (values : Nat → ℚ) (k : Nat) : Int :=
  roundedInteger (values k * 2 ^ (-fittedExponent n values)) (elementNoise n k) 8

def lineMean (n : Nat) (values : Nat → ℚ) : Int :=
  roundHalfAway (average n values * 2 ^ (-fittedExponent n values + 8))

structure NormalLine (n : Nat) (values : Nat → ℚ) : Prop where
  finite : ∀ k < n, |values k| < 2 ^ 128
  nonzero : -127 < fittedExponent n values
  low : -126 ≤ -fittedExponent n values
  high : -fittedExponent n values + 8 ≤ 127

theorem normalLine_iff {n : Nat} {values : Nat → ℚ} : NormalLine n values ↔
    (∀ k < n, |values k| < 2 ^ 128) ∧ -127 < fittedExponent n values ∧
      -126 ≤ -fittedExponent n values ∧ -fittedExponent n values + 8 ≤ 127 :=
  ⟨fun ⟨finite, nonzero, low, high⟩ => ⟨finite, nonzero, low, high⟩,
    fun ⟨finite, nonzero, low, high⟩ => ⟨finite, nonzero, low, high⟩⟩

instance (n : Nat) (values : Nat → ℚ) : Decidable (NormalLine n values) :=
  decidable_of_iff _ normalLine_iff.symm

theorem lineBit_congr {n : Nat} {values others : Nat → ℚ} (same : ∀ i < n, values i = others i)
    {k : Nat} (within : k < n) : lineBit n values k = lineBit n others k := by
  rw [lineBit, lineBit, fittedExponent_congr same, same k within]

theorem lineMean_congr {n : Nat} {values others : Nat → ℚ} (same : ∀ i < n, values i = others i) :
    lineMean n values = lineMean n others := by
  rw [lineMean, lineMean, fittedExponent_congr same, average_congr same]

theorem NormalLine.congr {n : Nat} {values others : Nat → ℚ} (same : ∀ i < n, values i = others i)
    (normal : NormalLine n others) : NormalLine n values := by
  obtain ⟨finite, nonzero, low, high⟩ := normal
  rw [← fittedExponent_congr same] at nonzero low high
  refine ⟨fun k within => ?_, nonzero, low, high⟩
  rw [same k within]
  exact finite k within

theorem line_mantissa {width : Nat} {arrays : BlockArrays width ℚ}
    {values : Nat → ℚ} {K r : Nat} (stored : EncodedRow (exact host) arrays values K r)
    (normal : NormalLine K (row values K r)) {k : Nat} (within : k < K) :
    arrays.mantissa (r * K + k) =
      BitVec.ofInt width (lineBit K (row values K r) k) -
        (exact host).toSigned width (lineMean K (row values K r) : ℚ) := by
  obtain ⟨finite, nonzero, low, high⟩ := normal
  have below := fittedExponent_upper finite nonzero k within
  have scale := fastPow2_exact host low (by omega)
  have element : |row values K r k * 2 ^ (-fittedExponent K (row values K r))| < 1 :=
    scaled_lt_one below
  have rounded := roundElement_exact host width (by decide : 8 ≤ 23)
    (fun k => row values K r k * 2 ^ (-fittedExponent K (row values K r))) k (elementNoise K k)
    element
  rw [stored.mantissa k within, rowStats_exponent, rowStats_mean,
    integerMean_exact host width _ (by omega) (by omega), scale]
  exact congrArg₂ (· - ·) rounded rfl

def castMean (width : Nat) (mean : Int) : Int := ((exact host).toSigned width (mean : ℚ)).toInt

def lineCode (width n : Nat) (values : Nat → ℚ) (k : Nat) : Int :=
  (lineBit n values k - castMean host width (lineMean n values) + 127) % 2 ^ width - 127

theorem line_code {width : Nat} {mantissa : BitVec width} {bit mean : Int}
    (stored : mantissa = BitVec.ofInt width bit - (exact host).toSigned width (mean : ℚ)) :
    ((mantissa + BitVec.ofNat width 127).toNat : Int) =
        (bit - castMean host width mean + 127) % 2 ^ width := by
  rw [stored, staged_toNat, castMean]

theorem castMean_fits {width : Nat} (positive : 0 < width) {mean : Int} (fits : Fits width mean) :
    castMean host width mean = mean := by
  rw [castMean, exact_toSigned_int host fits]
  exact BitVec.toInt_ofInt_eq_self positive fits.1 fits.2

theorem lineCode_congr (width : Nat) {n : Nat} {values others : Nat → ℚ}
    (same : ∀ i < n, values i = others i) {k : Nat} (within : k < n) :
    lineCode host width n values k = lineCode host width n others k := by
  rw [lineCode, lineCode, lineBit_congr same within, lineMean_congr same]

theorem abs_lineBit_le_one {n : Nat} {values : Nat → ℚ} (normal : NormalLine n values) {k : Nat}
    (within : k < n) : |lineBit n values k| ≤ 1 :=
  abs_roundedInteger_le_one
    (scaled_lt_one (fittedExponent_upper normal.finite normal.nonzero k within)) _ _

end Rational

section Exact

variable (host : Unspecified) (memory : TiledMemory ℚ) (A B : Nat → ℚ) {M K N : Nat}

theorem codeA_exact {r k : Nat} (normal : NormalLine K (row A K r)) (below : r < M)
    (within : k < K) :
    codeA (exact host) memory A M K r k = lineCode host 16 K (row A K r) k := by
  have stored := line_mantissa host
    (encoded_row (exact host) memory.blockA A below (by omega)) normal within
  rw [codeA, tiledBlockA, line_code host stored, lineCode]

theorem codeB_exact {c k : Nat} (normal : NormalLine K (column B N c)) (inside : c < N)
    (within : k < K) :
    codeB (exact host) memory B K N c k = lineCode host 8 K (column B N c) k := by
  have same := transposed_row (K := K) B (fun _ => zeroFloat (exact host)) inside
  have stored := line_mantissa host
    (encoded_row (exact host) memory.blockB (transposed B N K fun _ => zeroFloat (exact host))
      inside (by omega)) (normal.congr same) within
  rw [lineBit_congr same within, lineMean_congr same] at stored
  rw [codeB, tiledBlockB, line_code host stored, lineCode]

def cellScale (K N r c : Nat) : ℚ :=
  fastPow2 (exact host)
    (fittedExponent K (row A K r) + fittedExponent K (column B N c) - 16)

theorem dequantized_exact (positive : 0 < K) {r c : Nat} (below : r < M) (inside : c < N)
    (kBlock : Nat) (raw : BitVec 16) :
    dequantized (exact host) (tiledBlockA (exact host) memory A M K).toBlockArrays
        (tiledBlockB (exact host) memory B K N).toBlockArrays kBlock r c raw =
      (raw.toNat - 32768) * cellScale host A B K N r c +
        kBlock * average K (row A K r) * average K (column B N c) := by
  have rowA := encoded_row (exact host) memory.blockA A below positive
  have rowB := encoded_row (exact host) memory.blockB
    (transposed B N K fun _ => zeroFloat (exact host)) inside positive
  simp only [dequantized, tiledBlockA, tiledBlockB, rowA.exponent, rowA.mean, rowA.precision,
    rowB.exponent, rowB.mean, rowB.precision, rowStats_exponent, rowStats_mean,
    transposed_exponent _ _ inside, transposed_mean _ _ inside, exact_add, exact_mul, exact_ofInt]
  unfold cellScale
  push_cast
  norm_num

theorem tiled_cell_exact (backend : Backend) (C : Nat → ℚ) {splits : Splits} (positive : 0 < K)
    (multiplies : Multiplies (exact host) backend memory A B M K N splits) {r c : Nat}
    (below : r < M / splits.m) (inside : c < N / splits.n) :
    matmulTiled (exact host) backend memory A B C M K N splits (r * N + c) =
      (∑ k ∈ Finset.range (splits.k * (K / splits.k)),
          codeProduct (exact host) memory A B M K N r c k : Int) *
        cellScale host A B K N r c +
      (splits.k * (K / splits.k) : Nat) * average K (row A K r) * average K (column B N c) := by
  have tall : M / splits.m ≤ M := Nat.div_le_self M splits.m
  have wide : N / splits.n ≤ N := Nat.div_le_self N splits.n
  have round (step : Nat) (early : step < splits.k) :
      dequantized (exact host) (tiledBlockA (exact host) memory A M K).toBlockArrays
          (tiledBlockB (exact host) memory B K N).toBlockArrays (K / splits.k) r c
          (backend (tiledCall (exact host) memory A B M K N splits step)
            (r * (N / splits.n) + c)) =
        (∑ k ∈ Finset.range (K / splits.k),
            codeProduct (exact host) memory A B M K N r c (step * (K / splits.k) + k) : Int) *
          cellScale host A B K N r c +
        (K / splits.k : Nat) * average K (row A K r) * average K (column B N c) := by
    have word := multiplies step early r below c inside
    rw [centredProduct_tiled (exact host) memory A B step below inside] at word
    rw [dequantized_exact host memory A B positive (by omega) (by omega)]
    congr 2
    have shifted : ((backend (tiledCall (exact host) memory A B M K N splits step)
        (r * (N / splits.n) + c)).toNat : Int) - 32768 =
          ∑ k ∈ Finset.range (K / splits.k),
            codeProduct (exact host) memory A B M K N r c (step * (K / splits.k) + k) := by
      omega
    exact_mod_cast congrArg (Int.cast : Int → ℚ) shifted
  rw [matmulTiled_cell (exact host) backend memory A B C below inside, zeroFloat_exact]
  simp only [exact_add]
  rw [forLoop_congr fun step value early => congrArg (value + ·) (round step early)]
  rw [forLoop_add, zero_add, Finset.sum_add_distrib, ← Finset.sum_mul, ← Int.cast_sum, sum_blocks,
    Finset.sum_const, Finset.card_range, nsmul_eq_mul]
  push_cast
  ring

end Exact

end NpuMatmul
