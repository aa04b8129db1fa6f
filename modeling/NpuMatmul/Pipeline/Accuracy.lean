import NpuMatmul.FixedPoint.RoundTrip
import NpuMatmul.Pipeline.SplitInvariance
import NpuMatmul.Shared.PowerScaling

set_option autoImplicit false

namespace NpuMatmul

open Binary32

-- The e with 2 ^ (e - 1) ≤ max |values| < 2 ^ e.
def IsExponent (n : Nat) (values : Nat → ℚ) (e : Int) : Prop :=
  (∀ k < n, |values k| < 2 ^ e) ∧ ∃ k < n, 2 ^ (e - 1) ≤ |values k|

def ZeroLine (n : Nat) (values : Nat → ℚ) : Prop := ∀ k < n, values k = 0

structure NormalExponent (e : Int) : Prop where
  scale : NormalShift (-e)
  meanScale : NormalShift (-e + 8)

def FiniteScale (shift : Int) : Prop := biased (power shift) ≠ 255

-- The scales of nonzero lines and of their cells are normal. A zero line is encoded with the
-- exponent -127, and the scale of its cells is at least a number, which the 0 it meets leaves 0.
structure NormalProduct (M K N : Nat) (A B : Nat → ℚ) : Prop where
  rows : ∀ r < M, ¬ ZeroLine K (row A K r) →
    ∃ e, IsExponent K (row A K r) e ∧ NormalExponent e
  columns : ∀ c < N, ¬ ZeroLine K (column B N c) →
    ∃ e, IsExponent K (column B N c) e ∧ NormalExponent e
  cells : ∀ r < M, ∀ c < N, ∀ eA eB, IsExponent K (row A K r) eA →
    IsExponent K (column B N c) eB → NormalShift (eA + eB - 16)
  zeros : ∀ r < M, ∀ c < N, ZeroLine K (row A K r) ∨ ZeroLine K (column B N c) →
    FiniteScale (fittedExponent K (row A K r) + fittedExponent K (column B N c) - 16)

def exactCell (K N : Nat) (A B : Nat → ℚ) (r c : Nat) : ℚ :=
  ∑ k ∈ Finset.range K, row A K r k * column B N c k

def Accurate (M K N : Nat) (A B C : Nat → ℚ) : Prop :=
  ∀ r < M, ∀ c < N,
    (ZeroLine K (row A K r) ∨ ZeroLine K (column B N c) → C (r * N + c) = 0) ∧
      ∀ eA eB, IsExponent K (row A K r) eA → IsExponent K (column B N c) eB →
        |C (r * N + c) - exactCell K N A B r c| ≤ K * 2 ^ (eA + eB - 5)

theorem fittedExponent_normal {n : Nat} {values : Nat → ℚ} {k : Nat} (within : k < n)
    (finite : |values k| < 2 ^ 128) (large : 2 ^ (-126 : Int) ≤ |values k|) :
    -127 < fittedExponent n values := by
  have le : biased (encode (values k)) ≤ (Finset.range n).sup fun i => biased (encode (values i)) :=
    Finset.le_sup (f := fun i => biased (encode (values i))) (Finset.mem_range.mpr within)
  have positive : biased (encode (values k)) ≠ 0 := by
    rw [ne_eq, biased_encode_eq_zero finite]
    exact not_lt.mpr large
  unfold fittedExponent
  simp only
  split <;> omega

theorem IsExponent.unique {n : Nat} {values : Nat → ℚ} {e f : Int} (left : IsExponent n values e)
    (right : IsExponent n values f) : e = f := by
  have order {e f : Int} (low : IsExponent n values e) (high : IsExponent n values f) : e ≤ f := by
    obtain ⟨k, within, large⟩ := low.2
    have between : (2 : ℚ) ^ (e - 1) < 2 ^ f := lt_of_le_of_lt large (high.1 k within)
    have exponents := (zpow_lt_zpow_iff_right₀ (by norm_num : (1 : ℚ) < 2)).mp between
    omega
  exact le_antisymm (order left right) (order right left)

theorem IsExponent.fitted {n : Nat} {values : Nat → ℚ} {e : Int}
    (exponent : IsExponent n values e) (normal : NormalExponent e)
    (finite : ∀ k < n, |values k| < 2 ^ 128) :
    fittedExponent n values = e ∧ NormalLine n values := by
  obtain ⟨k, within, large⟩ := exponent.2
  have scales := normal.meanScale.2
  have low := normal.scale.1
  have above : -127 < fittedExponent n values := by
    apply fittedExponent_normal within (finite k within)
    exact le_trans (pow_le (by omega)) large
  have fits : fittedExponent n values = e :=
    IsExponent.unique ⟨fittedExponent_upper finite above, fittedExponent_lower finite above⟩ exponent
  refine ⟨fits, finite, above, ?_, ?_⟩ <;> omega

theorem IsExponent.nonzero {n : Nat} {values : Nat → ℚ} {e : Int}
    (exponent : IsExponent n values e) : ¬ ZeroLine n values := by
  intro zero
  obtain ⟨k, within, large⟩ := exponent.2
  have positive := pow_pos' (e - 1)
  rw [zero k within, abs_zero] at large
  linarith

theorem IsExponent.line {n : Nat} {values : Nat → ℚ} {e : Int} (exponent : IsExponent n values e)
    (finite : ∀ k < n, |values k| < 2 ^ 128)
    (normal : ¬ ZeroLine n values → ∃ e, IsExponent n values e ∧ NormalExponent e) :
    fittedExponent n values = e ∧ NormalLine n values := by
  obtain ⟨other, same, scales⟩ := normal exponent.nonzero
  rw [same.unique exponent] at scales
  exact exponent.fitted scales finite

theorem rational_finite (A : Nat → FiniteFloat) (i : Nat) : |rational A i| < 2 ^ 128 :=
  (A i).abs_lt

section Zero

variable (host : Unspecified)

theorem average_zeroLine {n : Nat} {values : Nat → ℚ} (zero : ZeroLine n values) :
    average n values = 0 := by
  rw [average_congr zero]
  simp [average]

theorem zeroLine_mantissa {width : Nat} {arrays : BlockArrays width ℚ} {values : Nat → ℚ} {K r : Nat}
    (stored : EncodedRow (exact host) arrays values K r) (zero : ZeroLine K (row values K r))
    {k : Nat} (within : k < K) : arrays.mantissa (r * K + k) = 0 := by
  have element : values (r * K + k) = 0 := zero k within
  have rounded := roundElement_exact host width (by decide : 8 ≤ 23)
    (fun k => values (r * K + k) *
      fastPow2 (exact host) (-(rowStats (exact host) values K r).exponent)) k (elementNoise K k)
    (by simp [element])
  have fits : Fits width 0 := by
    have positive : (0 : Int) < 2 ^ (width - 1) := Int.pow_pos (by decide)
    constructor <;> omega
  have mean : integerMean (exact host) width ((rowStats (exact host) values K r).mean (exact host))
      (rowStats (exact host) values K r).exponent 8 = 0 := by
    have cast := exact_toSigned_int host fits
    rw [rowStats_mean, average_zeroLine zero]
    simpa [integerMean] using cast
  rw [stored.mantissa k within, mean]
  simp only [element, zero_mul, roundedInteger_zero] at rounded
  simpa [element] using rounded

variable (memory : TiledMemory ℚ) {M K N : Nat}

theorem codeA_zero (A : Nat → ℚ) {r k : Nat} (below : r < M) (zero : ZeroLine K (row A K r))
    (within : k < K) : codeA (exact host) memory A M K r k = 0 := by
  have stored := zeroLine_mantissa host
    (encoded_row (exact host) memory.blockA A below (by omega)) zero within
  rw [codeA, tiledBlockA, stored]
  rfl

theorem codeB_zero (B : Nat → ℚ) {c k : Nat} (inside : c < N) (zero : ZeroLine K (column B N c))
    (within : k < K) : codeB (exact host) memory B K N c k = 0 := by
  have transposedZero :
      ZeroLine K (row (transposed B N K fun _ => zeroFloat (exact host)) K c) := by
    intro i early
    rw [transposed_row B _ inside i early]
    exact zero i early
  have stored := zeroLine_mantissa host
    (encoded_row (exact host) memory.blockB (transposed B N K fun _ => zeroFloat (exact host))
      inside (by omega)) transposedZero within
  rw [codeB, tiledBlockB, stored]
  rfl

theorem wholeCell (A B C : Nat → ℚ) {backend : Backend} (positive : 0 < K)
    (multiplies : Multiplies (exact host) backend memory A B M K N whole) {r c : Nat}
    (below : r < M) (inside : c < N) :
    matmulTiled (exact host) backend memory A B C M K N whole (r * N + c) =
      (∑ k ∈ Finset.range K, codeProduct (exact host) memory A B M K N r c k : Int) *
        cellScale host A B K N r c + K * average K (row A K r) * average K (column B N c) := by
  have cell := tiled_cell_exact host memory A B backend C positive multiplies
    (show r < M / whole.m by simpa [whole] using below)
    (show c < N / whole.n by simpa [whole] using inside)
  have covered : whole.k * (K / whole.k) = K := by simp [whole]
  rw [covered] at cell
  exact cell

theorem zero_cell (A B C : Nat → ℚ) {backend : Backend} (positive : 0 < K)
    (multiplies : Multiplies (exact host) backend memory A B M K N whole) {r c : Nat}
    (below : r < M) (inside : c < N)
    (zero : ZeroLine K (row A K r) ∨ ZeroLine K (column B N c)) :
    matmulTiled (exact host) backend memory A B C M K N whole (r * N + c) = 0 := by
  have products : ∑ k ∈ Finset.range K, codeProduct (exact host) memory A B M K N r c k = 0 := by
    apply Finset.sum_eq_zero
    intro k member
    have within := Finset.mem_range.mp member
    obtain zeroRow | zeroColumn := zero
    · rw [codeProduct, codeA_zero host memory A below zeroRow within, Int.zero_mul]
    · rw [codeProduct, codeB_zero host memory B inside zeroColumn within, Int.mul_zero]
  have means : average K (row A K r) * average K (column B N c) = 0 := by
    obtain zeroRow | zeroColumn := zero
    · rw [average_zeroLine zeroRow, zero_mul]
    · rw [average_zeroLine zeroColumn, mul_zero]
  rw [wholeCell host memory A B C positive multiplies below inside, products, mul_assoc, means]
  simp

end Zero

-- Every code of the line, a rounding bit less the rounded mean, fits the staged type.
structure Unwrapped (width n : Nat) (values : Nat → ℚ) : Prop where
  mean : Fits width (lineMean n values)
  least : ∀ k < n, -127 ≤ lineBit n values k - lineMean n values
  most : ∀ k < n, lineBit n values k - lineMean n values < 2 ^ width - 127

section Cell

variable (host : Unspecified) (A B : Nat → ℚ) (K N r c : Nat)

def narrowing (width n : Nat) (values : Nat → ℚ) (k : Nat) : Int :=
  let mean := lineMean n values
  let held := lineBit n values k - castMean host width mean + 127
  held % 2 ^ width - held + (mean - castMean host width mean)

def lineUnit (n : Nat) (values : Nat → ℚ) : ℚ := 2 ^ (fittedExponent n values - 8)

-- What one code holds beside the negated mean of its line: what rounding the mean leaves of it,
-- the rounding bit of the element, and the narrowing.
def share (width n : Nat) (values : Nat → ℚ) (k : Nat) : ℚ :=
  average n values - lineMean n values * lineUnit n values +
    (lineBit n values k + narrowing host width n values k : Int) * lineUnit n values

def rounding : ℚ :=
  ∑ k ∈ Finset.range K,
    (share host 16 K (row A K r) k * share host 8 K (column B N c) k -
      average K (column B N c) * share host 16 K (row A K r) k -
        average K (row A K r) * share host 8 K (column B N c) k)

def meanCell : ℚ := K * average K (row A K r) * average K (column B N c)

-- The kernel counts the product of the means twice, and of the rest of the product nothing.
def gap : ℚ := exactCell K N A B r c - 2 * meanCell A B K N r c

def CellNear (eA eB : Int) : Prop :=
  |gap A B K N r c - rounding host A B K N r c| ≤ K * 2 ^ (eA + eB - 5)

variable {K}

variable {A B N r c}

theorem share_code {width n : Nat} {values : Nat → ℚ} {k : Nat} :
    share host width n values k =
      lineCode host width n values k * lineUnit n values + average n values := by
  rw [share, narrowing, lineCode]
  push_cast
  ring

theorem whole_error (memory : TiledMemory ℚ) (C : Nat → ℚ) {M : Nat} {backend : Backend}
    (positive : 0 < K)
    (multiplies : Multiplies (exact host) backend memory A B M K N whole) (below : r < M)
    (inside : c < N) {eA eB : Int} (rowNormal : NormalLine K (row A K r))
    (columnNormal : NormalLine K (column B N c)) (rowFitted : fittedExponent K (row A K r) = eA)
    (columnFitted : fittedExponent K (column B N c) = eB) (scale : NormalShift (eA + eB - 16)) :
    matmulTiled (exact host) backend memory A B C M K N whole (r * N + c) -
        exactCell K N A B r c =
      -(gap A B K N r c - rounding host A B K N r c) := by
  have codes : ∑ k ∈ Finset.range K, codeProduct (exact host) memory A B M K N r c k =
      ∑ k ∈ Finset.range K,
        lineCode host 16 K (row A K r) k * lineCode host 8 K (column B N c) k := by
    apply Finset.sum_congr rfl
    intro k member
    have within := Finset.mem_range.mp member
    rw [codeProduct, codeA_exact host memory A rowNormal below within,
      codeB_exact host memory B columnNormal inside within]
  have unit : (2 : ℚ) ^ (eA + eB - 16) = 2 ^ (eA - 8) * 2 ^ (eB - 8) := by
    rw [← pow_split]
    congr 1
    ring
  have products : (∑ k ∈ Finset.range K,
      lineCode host 16 K (row A K r) k * lineCode host 8 K (column B N c) k : Int) *
        (2 : ℚ) ^ (eA + eB - 16) =
      rounding host A B K N r c + meanCell A B K N r c := by
    have constant : meanCell A B K N r c =
        ∑ _k ∈ Finset.range K, average K (row A K r) * average K (column B N c) := by
      rw [Finset.sum_const, Finset.card_range, nsmul_eq_mul, meanCell, mul_assoc]
    rw [constant, rounding, ← Finset.sum_add_distrib, Int.cast_sum, Finset.sum_mul]
    apply Finset.sum_congr rfl
    intro k _
    simp only [share_code, lineUnit, rowFitted, columnFitted, unit]
    push_cast
    ring
  rw [wholeCell host memory A B C positive multiplies below inside, codes, cellScale, rowFitted,
    columnFitted, fastPow2_exact host scale.1 scale.2, products, gap, meanCell]
  ring

theorem narrowing_unwrapped {width n : Nat} {values : Nat → ℚ} (wide : 8 ≤ width)
    (unwrapped : Unwrapped width n values) {k : Nat} (within : k < n) :
    narrowing host width n values k = 0 := by
  have least := unwrapped.least k within
  have most := unwrapped.most k within
  have held : (lineBit n values k - lineMean n values + 127) % 2 ^ width =
      lineBit n values k - lineMean n values + 127 :=
    Int.emod_eq_of_lt (by omega) (by omega)
  rw [narrowing, castMean_fits host (by omega) unwrapped.mean, held]
  ring

theorem abs_share_le {width n : Nat} {values : Nat → ℚ} (wide : 8 ≤ width)
    (normal : NormalLine n values) (unwrapped : Unwrapped width n values) {k : Nat}
    (within : k < n) :
    |share host width n values k| ≤ 3 / 2 * lineUnit n values := by
  have unit : 0 < lineUnit n values := pow_pos' _
  have bit : |(lineBit n values k : ℚ)| ≤ 1 := by exact_mod_cast abs_lineBit_le_one normal within
  have near : |average n values - lineMean n values * lineUnit n values| ≤
      1 / 2 * lineUnit n values := rounded_residue _ _
  have carried : |lineBit n values k * lineUnit n values| ≤ lineUnit n values := by
    rw [abs_mul, abs_of_pos unit]
    exact mul_le_of_le_one_left unit.le bit
  rw [share, narrowing_unwrapped host wide unwrapped within, add_zero]
  rw [abs_le] at carried near ⊢
  constructor <;> linarith

theorem abs_product_le {x y m n dx dy dm dn : ℚ} (left : |x| ≤ dx) (right : |y| ≤ dy)
    (boundM : |m| ≤ dm) (boundN : |n| ≤ dn) :
    |x * y - n * x - m * y| ≤ dm * dy + dn * dx + dx * dy := by
  have first : |x * y| ≤ dx * dy := by
    rw [abs_mul]
    exact mul_le_mul left right (abs_nonneg _) (le_trans (abs_nonneg _) left)
  have second : |m * y| ≤ dm * dy := by
    rw [abs_mul]
    exact mul_le_mul boundM right (abs_nonneg _) (le_trans (abs_nonneg _) boundM)
  have third : |n * x| ≤ dn * dx := by
    rw [abs_mul]
    exact mul_le_mul boundN left (abs_nonneg _) (le_trans (abs_nonneg _) boundN)
  rw [abs_le] at first second third ⊢
  constructor <;> linarith

theorem abs_rounding_le (positive : 0 < K) (rowNormal : NormalLine K (row A K r))
    (columnNormal : NormalLine K (column B N c)) (rowUnwrapped : Unwrapped 16 K (row A K r))
    (columnUnwrapped : Unwrapped 8 K (column B N c)) :
    |rounding host A B K N r c| ≤
      K * (1 / 80 *
        2 ^ (fittedExponent K (row A K r) + fittedExponent K (column B N c))) := by
  let eA := fittedExponent K (row A K r)
  let eB := fittedExponent K (column B N c)
  have scaleA : (2 : ℚ) ^ (eA - 8) = 2 ^ eA / 256 := by
    rw [sub_eq_add_neg, pow_split]
    norm_num
    ring
  have scaleB : (2 : ℚ) ^ (eB - 8) = 2 ^ eB / 256 := by
    rw [sub_eq_add_neg, pow_split]
    norm_num
    ring
  have boundA := (abs_average_lt positive
    (fittedExponent_upper rowNormal.finite rowNormal.nonzero)).le
  have boundB := (abs_average_lt positive
    (fittedExponent_upper columnNormal.finite columnNormal.nonzero)).le
  have each : ∀ k ∈ Finset.range K,
      |share host 16 K (row A K r) k * share host 8 K (column B N c) k -
        average K (column B N c) * share host 16 K (row A K r) k -
          average K (row A K r) * share host 8 K (column B N c) k| ≤
        1 / 80 * 2 ^ (eA + eB) := by
    intro k member
    have within := Finset.mem_range.mp member
    have near := abs_product_le
      (abs_share_le host (by decide : 8 ≤ 16) rowNormal rowUnwrapped within)
      (abs_share_le host (by decide : 8 ≤ 8) columnNormal columnUnwrapped within) boundA boundB
    apply le_trans near
    change (2 : ℚ) ^ eA * (3 / 2 * 2 ^ (eB - 8)) + 2 ^ eB * (3 / 2 * 2 ^ (eA - 8)) +
      3 / 2 * 2 ^ (eA - 8) * (3 / 2 * 2 ^ (eB - 8)) ≤ 1 / 80 * 2 ^ (eA + eB)
    have product : 0 < (2 : ℚ) ^ eA * 2 ^ eB := mul_pos (pow_pos' eA) (pow_pos' eB)
    rw [scaleA, scaleB, pow_split]
    linarith
  calc |rounding host A B K N r c| ≤ ∑ k ∈ Finset.range K,
        |share host 16 K (row A K r) k * share host 8 K (column B N c) k -
          average K (column B N c) * share host 16 K (row A K r) k -
            average K (row A K r) * share host 8 K (column B N c) k| :=
        Finset.abs_sum_le_sum_abs _ _
    _ ≤ ∑ _k ∈ Finset.range K, 1 / 80 * 2 ^ (eA + eB) := Finset.sum_le_sum each
    _ = K * (1 / 80 * 2 ^ (eA + eB)) := by simp

end Cell

section Product

variable (host : Unspecified) (backend : Backend) (memory : TiledMemory ℚ) {M K N : Nat}
  (positive : 0 < K) (A B : Nat → FiniteFloat) (C : Nat → ℚ)
  (normal : NormalProduct M K N (rational A) (rational B))
  (multiplies : Multiplies (exact host) backend memory (rational A) (rational B) M K N whole)

def NonzeroCells (M K N : Nat) (A B : Nat → ℚ) (P : Nat → Nat → Int → Int → Prop) : Prop :=
  ∀ r < M, ∀ c < N, ∀ eA eB, IsExponent K (row A K r) eA → IsExponent K (column B N c) eB →
    P r c eA eB

include positive normal multiplies in
theorem accurate_cellNear :
    Accurate M K N (rational A) (rational B)
        (matmulTiled (exact host) backend memory (rational A) (rational B) C M K N whole) ↔
      NonzeroCells M K N (rational A) (rational B)
        (CellNear host (rational A) (rational B) K N) := by
  have errors {r c : Nat} (below : r < M) (inside : c < N) {eA eB : Int}
      (exponentA : IsExponent K (row (rational A) K r) eA)
      (exponentB : IsExponent K (column (rational B) N c) eB) :
      matmulTiled (exact host) backend memory (rational A) (rational B) C M K N whole
          (r * N + c) - exactCell K N (rational A) (rational B) r c =
        -(gap (rational A) (rational B) K N r c -
          rounding host (rational A) (rational B) K N r c) := by
    have fittedA := exponentA.line (fun _ _ => rational_finite A _) (normal.rows r below)
    have fittedB := exponentB.line (fun _ _ => rational_finite B _) (normal.columns c inside)
    exact whole_error host memory C positive multiplies below inside fittedA.2 fittedB.2 fittedA.1
      fittedB.1 (normal.cells r below c inside eA eB exponentA exponentB)
  constructor
  · intro accurate r below c inside eA eB exponentA exponentB
    have close := (accurate r below c inside).2 eA eB exponentA exponentB
    rw [errors below inside exponentA exponentB, abs_neg] at close
    exact close
  · intro near r below c inside
    constructor
    · exact zero_cell host memory (rational A) (rational B) C positive multiplies below inside
    · intro eA eB exponentA exponentB
      rw [errors below inside exponentA exponentB, abs_neg]
      exact near r below c inside eA eB exponentA exponentB

include positive normal in
theorem rounding_unwrapped :
    NonzeroCells M K N (rational A) (rational B) fun r c eA eB =>
      Unwrapped 16 K (row (rational A) K r) → Unwrapped 8 K (column (rational B) N c) →
        |rounding host (rational A) (rational B) K N r c| ≤ K * (1 / 80 * 2 ^ (eA + eB)) := by
  intro r below c inside eA eB exponentA exponentB unwrappedA unwrappedB
  have fittedA := exponentA.line (fun _ _ => rational_finite A _) (normal.rows r below)
  have fittedB := exponentB.line (fun _ _ => rational_finite B _) (normal.columns c inside)
  have bound := abs_rounding_le host positive fittedA.2 fittedB.2 unwrappedA unwrappedB
  rw [fittedA.1, fittedB.1] at bound
  exact bound

end Product

section Sample

theorem isExponent_pulse {n : Nat} (positive : 0 < n) : IsExponent n pulse 0 := by
  constructor
  · intro k _
    unfold pulse
    split <;> norm_num
  · refine ⟨0, positive, ?_⟩
    norm_num [pulse]

theorem IsExponent.congr {n : Nat} {values others : Nat → ℚ} (same : ∀ k < n, values k = others k)
    {e : Int} : IsExponent n values e ↔ IsExponent n others e := by
  constructor
  · rintro ⟨upper, k, within, lower⟩
    exact ⟨fun i early => same i early ▸ upper i early, k, within, same k within ▸ lower⟩
  · rintro ⟨upper, k, within, lower⟩
    exact ⟨fun i early => same i early ▸ upper i early, k, within, same k within ▸ lower⟩

theorem pulseExponents {K N r c : Nat} (positive : 0 < K) (inside : c < N) :
    (∀ e, IsExponent K (row (rational (pulseRows K)) K r) e ↔ e = 0) ∧
      ∀ e, IsExponent K (column (rational (pulseColumns N)) N c) e ↔ e = 0 := by
  have only (e : Int) : IsExponent K pulse e ↔ e = 0 := by
    constructor
    · intro exponent
      exact exponent.unique (isExponent_pulse positive)
    · intro zero
      rw [zero]
      exact isExponent_pulse positive
  constructor
  · intro e
    rw [IsExponent.congr row_pulse, only]
  · intro e
    rw [IsExponent.congr fun k _ => column_pulse inside k, only]

theorem normalProduct_pulse {M K N : Nat} (positive : 0 < K) :
    NormalProduct M K N (rational (pulseRows K)) (rational (pulseColumns N)) := by
  have normal : NormalExponent 0 := by
    constructor <;> constructor <;> decide
  constructor
  · intro r _ _
    exact ⟨0, (IsExponent.congr row_pulse).mpr (isExponent_pulse positive), normal⟩
  · intro c inside _
    exact ⟨0, ((pulseExponents (r := 0) positive inside).2 0).mpr rfl, normal⟩
  · intro r _ c inside eA eB exponentA exponentB
    rw [((pulseExponents positive inside).1 eA).mp exponentA,
      ((pulseExponents (r := 0) positive inside).2 eB).mp exponentB]
    constructor <;> decide
  · intro r _ c inside zero
    have exponents := pulseExponents (r := r) positive inside
    obtain zeroRow | zeroColumn := zero
    · exact absurd zeroRow ((exponents.1 0).mpr rfl).nonzero
    · exact absurd zeroColumn ((exponents.2 0).mpr rfl).nonzero

theorem exactCell_pulse {K N r c : Nat} (positive : 0 < K) (inside : c < N) :
    exactCell K N (rational (pulseRows K)) (rational (pulseColumns N)) r c = 1 / 4 := by
  have each : ∀ k ∈ Finset.range K, row (rational (pulseRows K)) K r k *
      column (rational (pulseColumns N)) N c k = if k = 0 then 1 / 4 else 0 := by
    intro k member
    rw [row_pulse k (Finset.mem_range.mp member), column_pulse inside, pulse]
    split <;> norm_num
  rw [exactCell, Finset.sum_congr rfl each]
  simp [positive]

theorem share_pulse_two {width : Nat} (wide : 8 ≤ width) {values : Nat → ℚ}
    (same : ∀ k < 2, values k = pulse k) {k : Nat} (within : k < 2) :
    share default width 2 values k = 0 := by
  have mean : pulseMean 2 = 64 := by decide +kernel
  rw [share_code, lineUnit, lineCode_congr default width same within, fittedExponent_congr same,
    average_congr same, lineCode_pulse default wide (by decide), mean,
    fittedExponent_pulse (by decide), average_pulse (by decide)]
  norm_num

theorem cellNear_pulse_two {N r c : Nat} (inside : c < N) (eA eB : Int) :
    CellNear default (rational (pulseRows 2)) (rational (pulseColumns N)) 2 N r c eA eB := by
  have rows := row_pulse (K := 2) (r := r)
  have columns : ∀ k < 2, column (rational (pulseColumns N)) N c k = pulse k :=
    fun k _ => column_pulse inside k
  have rounded :
      rounding default (rational (pulseRows 2)) (rational (pulseColumns N)) 2 N r c = 0 := by
    apply Finset.sum_eq_zero
    intro k member
    have within := Finset.mem_range.mp member
    rw [share_pulse_two (by decide) rows within, share_pulse_two (by decide) columns within]
    norm_num
  have none : gap (rational (pulseRows 2)) (rational (pulseColumns N)) 2 N r c = 0 := by
    rw [gap, exactCell_pulse (by decide) inside, meanCell, average_congr rows,
      average_congr columns, average_pulse (by decide)]
    norm_num
  have unit := pow_pos' (eA + eB - 5)
  rw [CellNear, rounded, none, sub_zero, abs_zero]
  positivity

end Sample

end NpuMatmul
