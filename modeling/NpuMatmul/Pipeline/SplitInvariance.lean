import NpuMatmul.Pipeline.TiledExact

set_option autoImplicit false

namespace NpuMatmul

open Binary32

def rational (values : Nat → FiniteFloat) : Nat → ℚ := fun i => (values i).toRat

structure Splits.Valid (splits : Splits) (M K N : Nat) : Prop where
  m : 1 ≤ splits.m ∧ splits.m ≤ M
  k : 1 ≤ splits.k ∧ splits.k ≤ K
  n : 1 ≤ splits.n ∧ splits.n ≤ N

-- The split product and the whole one agree in every cell, for every pair of finite matrices.
def SplitsAgree (M K N : Nat) (splits : Splits) : Prop :=
  ∀ (host : Unspecified) (backend : Backend) (memory other : TiledMemory ℚ)
    (A B : Nat → FiniteFloat) (C D : Nat → ℚ),
    Multiplies (exact host) backend memory (rational A) (rational B) M K N splits →
    Multiplies (exact host) backend other (rational A) (rational B) M K N whole →
    ∀ r < M, ∀ c < N,
      matmulTiled (exact host) backend memory (rational A) (rational B) C M K N splits
          (r * N + c) =
        matmulTiled (exact host) backend other (rational A) (rational B) D M K N whole
          (r * N + c)

theorem splitsAgree_of_covers {M K N : Nat} {splits : Splits} (positive : 0 < K)
    (rows : splits.m = 1) (cols : splits.n = 1) (divides : splits.k ∣ K) :
    SplitsAgree M K N splits := by
  intro host backend memory other A B C D split unsplit r below c inside
  have tall : r < M / splits.m := by rw [rows, Nat.div_one]; exact below
  have wide : c < N / splits.n := by rw [cols, Nat.div_one]; exact inside
  have covered : splits.k * (K / splits.k) = K := Nat.mul_div_cancel' divides
  have codes : ∀ k ∈ Finset.range K,
      codeProduct (exact host) memory (rational A) (rational B) M K N r c k =
        codeProduct (exact host) other (rational A) (rational B) M K N r c k := by
    intro k member
    have within := Finset.mem_range.mp member
    rw [codeProduct, codeProduct, codeA_memory (exact host) memory other _ below within,
      codeB_memory (exact host) memory other _ inside within]
  rw [tiled_cell_exact host memory (rational A) (rational B) backend C positive split tall wide,
    tiled_cell_exact host other (rational A) (rational B) backend D positive unsplit
      (by simpa [whole] using below) (by simpa [whole] using inside), covered]
  simp only [whole, Nat.div_one, Nat.one_mul]
  rw [Finset.sum_congr rfl codes]

section Pulse

def minusHalf : FiniteFloat := { bits := 0xBF000000#32, finite := by decide }

def zero : FiniteFloat := { bits := 0#32, finite := by decide }

-- Matrices with -0.5 in the first place of every row, and of every column, and 0 elsewhere.
def pulseRows (K index : Nat) : FiniteFloat := if index % K = 0 then minusHalf else zero

def pulseColumns (N index : Nat) : FiniteFloat := if index < N then minusHalf else zero

def pulse (k : Nat) : ℚ := if k = 0 then -(1 / 2) else 0

theorem minusHalf_toRat : minusHalf.toRat = -(1 / 2) := by
  have field : biased minusHalf.bits = 126 := by decide
  have part : fraction minusHalf.bits = 0 := by decide
  have sign : negative minusHalf.bits = true := by decide
  norm_num [FiniteFloat.toRat, value, magnitude, significand, field, part, sign]

theorem zero_toRat : zero.toRat = 0 := by
  have field : biased zero.bits = 0 := by decide
  have part : fraction zero.bits = 0 := by decide
  simp [FiniteFloat.toRat, value, magnitude, significand, field, part]

theorem row_pulse {K r : Nat} : ∀ k < K, row (rational (pulseRows K)) K r k = pulse k := by
  intro k within
  have place : (r * K + k) % K = k := by
    rw [Nat.mul_comm, Nat.mul_add_mod, Nat.mod_eq_of_lt within]
  simp only [row, rational, pulseRows, place, pulse]
  split
  · exact minusHalf_toRat
  · exact zero_toRat

theorem column_pulse {N c : Nat} (inside : c < N) (k : Nat) :
    column (rational (pulseColumns N)) N c k = pulse k := by
  by_cases first : k = 0
  · simp [column, rational, pulseColumns, pulse, first, inside, minusHalf_toRat]
  · have below : ¬ k * N + c < N := by
      have large : 1 * N ≤ k * N := Nat.mul_le_mul_right N (by omega)
      omega
    simp [column, rational, pulseColumns, pulse, first, below, zero_toRat]

theorem biased_pulse (k : Nat) : biased (encode (pulse k)) = if k = 0 then 126 else 0 := by
  unfold pulse
  split
  · rw [← minusHalf_toRat]
    exact biased_encode_value minusHalf.finite
  · rw [← zero_toRat]
    exact biased_encode_value zero.finite

theorem fittedExponent_pulse {n : Nat} (positive : 0 < n) : fittedExponent n pulse = 0 := by
  have largest : ((Finset.range n).sup fun k => biased (encode (pulse k))) = 126 := by
    apply le_antisymm
    · apply Finset.sup_le
      intro k _
      rw [biased_pulse]
      split <;> omega
    · have first := Finset.le_sup (f := fun k => biased (encode (pulse k)))
        (Finset.mem_range.mpr positive)
      simpa [biased_pulse] using first
  simp [fittedExponent, largest]

theorem average_pulse {n : Nat} (positive : 0 < n) : average n pulse = -(1 / (2 * n)) := by
  have total : ∑ k ∈ Finset.range n, pulse k = -(1 / 2) := by
    simp [pulse, positive]
  have size : (n : ℚ) ≠ 0 := by exact_mod_cast Nat.pos_iff_ne_zero.mp positive
  rw [average, total]
  field_simp

theorem normalLine_pulse {n : Nat} (positive : 0 < n) : NormalLine n pulse := by
  have exponent := fittedExponent_pulse positive
  constructor
  · intro k _
    unfold pulse
    split <;> norm_num
  all_goals rw [exponent]; decide

-- The first noise is too small to carry 0.5 over, so every rounding bit of the pulse is 0.
theorem lineBit_pulse {n : Nat} (positive : 0 < n) (k : Nat) : lineBit n pulse k = 0 := by
  have scaled : pulse k * 2 ^ (-fittedExponent n pulse) = pulse k := by
    simp [fittedExponent_pulse positive]
  have carry : roundingCarry (pulse k) (elementNoise n k) 8 = 0 := by
    unfold roundingCarry pulse
    by_cases first : k = 0
    · rw [first, elementNoise_first]
      norm_num
    · rw [if_neg first]
      norm_num
  rw [lineBit, scaled, roundedInteger, carry]
  simp

def pulseMean (n : Nat) : Int := roundHalfAway (128 / n)

theorem lineMean_pulse {n : Nat} (positive : 0 < n) : lineMean n pulse = -pulseMean n := by
  have size : (n : ℚ) ≠ 0 := by exact_mod_cast Nat.pos_iff_ne_zero.mp positive
  have scaled : average n pulse * 2 ^ (-fittedExponent n pulse + 8) = -(128 / n) := by
    rw [fittedExponent_pulse positive, average_pulse positive]
    norm_num
    field_simp
    norm_num
  rw [lineMean, scaled, roundHalfAway_neg, pulseMean]

theorem pulseMean_nonneg (n : Nat) : 0 ≤ pulseMean n := by
  have nonneg : (0 : ℚ) ≤ 128 / n := by positivity
  rw [pulseMean, roundHalfAway, if_pos nonneg]
  positivity

theorem pulseMean_scaled {n : Nat} (positive : 0 < n) : 2 * n * pulseMean n ≤ 256 + n := by
  have size : (0 : ℚ) < n := by exact_mod_cast positive
  have near := roundHalfAway_near (128 / n)
  rw [abs_le] at near
  have bound : (pulseMean n : ℚ) ≤ 128 / n + 1 / 2 := by
    unfold pulseMean
    linarith
  have product : 2 * n * (pulseMean n : ℚ) ≤ 256 + n := by
    calc 2 * n * (pulseMean n : ℚ) ≤ 2 * n * (128 / n + 1 / 2) := by gcongr
      _ = 256 + n := by
          field_simp
          ring
  exact_mod_cast product

theorem pulseMean_le {n : Nat} (positive : 0 < n) : pulseMean n ≤ 128 := by
  have scaled := pulseMean_scaled positive
  have nonneg := pulseMean_nonneg n
  by_contra large
  have size : (1 : Int) ≤ n := by exact_mod_cast positive
  nlinarith

theorem pulse_square {n : Nat} (positive : 0 < n) : n * pulseMean n ^ 2 ≤ 32767 := by
  have scaled := pulseMean_scaled positive
  have nonneg := pulseMean_nonneg n
  have size : (1 : Int) ≤ n := by exact_mod_cast positive
  by_cases long : 256 < n
  · have zero : pulseMean n = 0 := by
      by_contra other
      have one : 1 ≤ pulseMean n := by omega
      nlinarith
    rw [zero]
    norm_num
  · have small : (n : Int) ≤ 256 := by omega
    have squared : (2 * n * pulseMean n) ^ 2 ≤ (256 + (n : Int)) ^ 2 :=
      pow_le_pow_left₀ (by positivity) scaled 2
    nlinarith

variable (host : Unspecified) (memory : TiledMemory ℚ) {M K N : Nat}

theorem lineCode_pulse {width n : Nat} (wide : 8 ≤ width) (positive : 0 < n) (k : Nat) :
    lineCode host width n pulse k = pulseMean n := by
  have nonneg := pulseMean_nonneg n
  have small := pulseMean_le positive
  have bits : (2 : Int) ^ 7 ≤ 2 ^ (width - 1) := pow_le_pow_right₀ (by decide) (by omega)
  have room : (2 : Int) ^ 8 ≤ 2 ^ width := pow_le_pow_right₀ (by decide) wide
  have fits : Fits width (lineMean n pulse) := by
    rw [lineMean_pulse positive]
    constructor <;> omega
  rw [lineCode, castMean_fits host (by omega) fits, lineBit_pulse positive, lineMean_pulse positive,
    Int.emod_eq_of_lt (by omega) (by omega)]
  ring

theorem codeProduct_pulse {r c k : Nat} (below : r < M) (inside : c < N) (within : k < K) :
    codeProduct (exact host) memory (rational (pulseRows K)) (rational (pulseColumns N)) M K N r c k =
      pulseMean K ^ 2 := by
  have positive : 0 < K := by omega
  have rows := row_pulse (K := K) (r := r)
  have columns : ∀ k < K, column (rational (pulseColumns N)) N c k = pulse k :=
    fun k _ => column_pulse inside k
  rw [codeProduct, codeA_exact host memory _ ((normalLine_pulse positive).congr rows) below within,
    codeB_exact host memory _ ((normalLine_pulse positive).congr columns) inside within,
    lineCode_congr host 16 rows within, lineCode_congr host 8 columns within,
    lineCode_pulse host (by decide) positive, lineCode_pulse host (by decide) positive, sq]

theorem sum_codeProduct_pulse {r c : Nat} (below : r < M) (inside : c < N) (start count : Nat)
    (within : start + count ≤ K) :
    ∑ k ∈ Finset.range count, codeProduct (exact host) memory (rational (pulseRows K))
        (rational (pulseColumns N)) M K N r c (start + k) = count * pulseMean K ^ 2 := by
  have each : ∀ k ∈ Finset.range count, codeProduct (exact host) memory (rational (pulseRows K))
      (rational (pulseColumns N)) M K N r c (start + k) = pulseMean K ^ 2 := by
    intro k member
    have early := Finset.mem_range.mp member
    exact codeProduct_pulse host memory below inside (by omega)
  rw [Finset.sum_congr rfl each]
  simp

theorem multiplies_pulse {splits : Splits} (positive : 0 < K) :
    Multiplies (exact host) saturatingBackend memory (rational (pulseRows K))
      (rational (pulseColumns N)) M K N splits := by
  intro step early
  apply saturatingBackend_computes
  intro r below c inside
  have tall : M / splits.m ≤ M := Nat.div_le_self M splits.m
  have wide : N / splits.n ≤ N := Nat.div_le_self N splits.n
  have covered : (step + 1) * (K / splits.k) ≤ K :=
    le_trans (Nat.mul_le_mul_right _ early) (Nat.mul_div_le K splits.k)
  have product := centredProduct_tiled (exact host) memory (rational (pulseRows K))
    (rational (pulseColumns N)) (K := K) step below inside
  rw [Nat.succ_mul] at covered
  rw [sum_codeProduct_pulse host memory (by omega) (by omega) _ _ covered] at product
  have square := pulse_square positive
  have shorter : ((K / splits.k : Nat) : Int) ≤ K := by exact_mod_cast Nat.div_le_self K splits.k
  have nonneg : 0 ≤ pulseMean K ^ 2 := sq_nonneg _
  have least : 0 ≤ ((K / splits.k : Nat) : Int) * pulseMean K ^ 2 := by positivity
  have most : ((K / splits.k : Nat) : Int) * pulseMean K ^ 2 ≤ K * pulseMean K ^ 2 :=
    mul_le_mul_of_nonneg_right shorter nonneg
  simp only [tiledCall, fullyConnectedCall] at product
  rw [product]
  omega

def pulseUnit (K : Nat) : ℚ := (pulseMean K : ℚ) ^ 2 * 2 ^ (-16 : Int) + 1 / (2 * K) ^ 2

theorem pulseUnit_pos {K : Nat} (positive : 0 < K) : 0 < pulseUnit K := by
  have size : (0 : ℚ) < K := by exact_mod_cast positive
  unfold pulseUnit
  positivity

theorem pulse_cell (C : Nat → ℚ) (splits : Splits) (positive : 0 < K) {r c : Nat}
    (below : r < M / splits.m) (inside : c < N / splits.n) :
    matmulTiled (exact host) saturatingBackend memory (rational (pulseRows K))
        (rational (pulseColumns N)) C M K N splits (r * N + c) =
      (splits.k * (K / splits.k) : Nat) * pulseUnit K := by
  have tall : M / splits.m ≤ M := Nat.div_le_self M splits.m
  have wide : N / splits.n ≤ N := Nat.div_le_self N splits.n
  have rows := row_pulse (K := K) (r := r)
  have columns : ∀ k < K, column (rational (pulseColumns N)) N c k = pulse k :=
    fun k _ => column_pulse (by omega) k
  have total := sum_codeProduct_pulse host memory (r := r) (c := c) (M := M) (N := N) (by omega)
    (by omega) 0 (splits.k * (K / splits.k)) (by simpa using Nat.mul_div_le K splits.k)
  simp only [Nat.zero_add] at total
  rw [tiled_cell_exact host memory _ _ saturatingBackend C positive
    (multiplies_pulse host memory positive) below inside, total, cellScale,
    fittedExponent_congr rows, fittedExponent_congr columns, fittedExponent_pulse positive,
    average_congr rows, average_congr columns, average_pulse positive,
    fastPow2_exact host (by decide) (by decide), pulseUnit]
  generalize splits.k * (K / splits.k) = covered
  push_cast
  ring

end Pulse

theorem covers_of_splitsAgree {M K N : Nat} {splits : Splits} (valid : splits.Valid M K N)
    (agree : SplitsAgree M K N splits) : splits.m = 1 ∧ splits.n = 1 ∧ splits.k ∣ K := by
  obtain ⟨m, k, n⟩ := valid
  have positive : 0 < K := by omega
  have size : (0 : ℚ) < K := by exact_mod_cast positive
  have unit := pulseUnit_pos positive
  have lastRow : M - 1 < M / whole.m := by simp [whole]; omega
  have lastCol : N - 1 < N / whole.n := by simp [whole]; omega
  have unsplit := pulse_cell (default : Unspecified) default (fun _ => 0) whole positive lastRow
    lastCol
  have same := agree default saturatingBackend default default (pulseRows K) (pulseColumns N)
    (fun _ => 0) (fun _ => 0) (multiplies_pulse _ _ positive) (multiplies_pulse _ _ positive)
    (M - 1) (by omega) (N - 1) (by omega)
  have covered : whole.k * (K / whole.k) = K := by simp [whole]
  rw [unsplit, covered] at same
  by_cases computed : M - 1 < M / splits.m ∧ N - 1 < N / splits.n
  · rw [pulse_cell default default _ splits positive computed.1 computed.2] at same
    have equal := mul_right_cancel₀ unit.ne' same
    have divides : splits.k * (K / splits.k) = K := by exact_mod_cast equal
    exact ⟨div_eq_one_of_last m.1 computed.1, div_eq_one_of_last n.1 computed.2,
      Dvd.intro _ divides⟩
  · rw [matmulTiled_skipped (exact default) saturatingBackend default _ _ _ (by omega) (by omega)
      computed, zeroFloat_exact] at same
    have nonzero : 0 < (K : ℚ) * pulseUnit K := by positivity
    linarith

-- Tiling leaves the product unchanged exactly when only the K axis is split, evenly: the rows
-- beyond M / m_split, the columns beyond N / n_split and the K indices beyond k_split whole blocks
-- are never computed.
theorem splitsAgree_iff_covers {M K N : Nat} {splits : Splits} (valid : splits.Valid M K N) :
    SplitsAgree M K N splits ↔ splits.m = 1 ∧ splits.n = 1 ∧ splits.k ∣ K := by
  constructor
  · exact covers_of_splitsAgree valid
  · rintro ⟨rows, cols, divides⟩
    have positive : 0 < K := by
      have bounds := valid.k
      omega
    exact splitsAgree_of_covers positive rows cols divides

theorem splitsAgree_two_rounds : SplitsAgree 2 4 2 { m := 1, k := 2, n := 1 } :=
  (splitsAgree_iff_covers ⟨by decide, by decide, by decide⟩).mpr ⟨rfl, rfl, by decide⟩

-- The splits that forward computes for a product with 1025 rows leave the last row at zero.
theorem splits_drop_rows :
    Splits.Valid { m := 2, k := 1, n := 1 } 1025 4 4 ∧
      Multiplies (exact default) saturatingBackend default (rational (pulseRows 4))
        (rational (pulseColumns 4)) 1025 4 4 { m := 2, k := 1, n := 1 } ∧
      Multiplies (exact default) saturatingBackend default (rational (pulseRows 4))
        (rational (pulseColumns 4)) 1025 4 4 whole ∧
      matmulTiled (exact default) saturatingBackend default (rational (pulseRows 4))
          (rational (pulseColumns 4)) (fun _ => 0) 1025 4 4 { m := 2, k := 1, n := 1 }
          (1024 * 4 + 0) ≠
        matmulTiled (exact default) saturatingBackend default (rational (pulseRows 4))
          (rational (pulseColumns 4)) (fun _ => 0) 1025 4 4 whole (1024 * 4 + 0) := by
  refine ⟨⟨by decide, by decide, by decide⟩, multiplies_pulse _ _ (by decide),
    multiplies_pulse _ _ (by decide), ?_⟩
  have unit : 0 < pulseUnit 4 := pulseUnit_pos (by decide)
  rw [matmulTiled_skipped (exact default) saturatingBackend default _ _ _ (by decide) (by decide)
    (by decide), zeroFloat_exact, pulse_cell default default _ whole (by decide) (by decide)
    (by decide)]
  simp [whole, unit.ne']

end NpuMatmul
