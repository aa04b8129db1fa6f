import NpuMatmul.Pipeline.Kernels

set_option autoImplicit false

namespace NpuMatmul

open Loop

section Row

variable {rows K : Nat}

theorem rowShape_numBlocks (positive : 0 < K) : (rowShape rows K).numBlocks = 1 := by
  have whole : (K + K - 1) / K = 1 := by
    apply Nat.div_eq_of_lt_le <;> omega
  exact whole

theorem rowShape_blockFlatIdx (positive : 0 < K) (r : Nat) :
    (rowShape rows K).blockFlatIdx r 0 = r := by
  rw [BlockShape.blockFlatIdx, rowShape_numBlocks positive]
  simp [rowShape]

theorem rowShape_element (r k : Nat) : (rowShape rows K).element r 0 k = r * K + k := by
  simp [BlockShape.element, BlockShape.flatIndex, BlockShape.start, rowShape]

theorem rowShape_count : (rowShape rows K).count 0 = K := by
  simp [BlockShape.count, BlockShape.stop, BlockShape.start, BlockShape.laneLength, rowShape]

variable {F : Type} (fp : FloatArith F) {width : Nat}

def rowStats (values : Nat → F) (K r : Nat) : BlockStats F :=
  forLoop K (fun k (stats : BlockStats F) => stats.scan fp (values (r * K + k)))
    (BlockStats.empty fp)

variable (rows) in
theorem blockStats_row (values : Nat → F) (r : Nat) :
    blockStats fp (rowShape rows K) values r 0 = rowStats fp values K r := by
  simp [blockStats, rowStats, rowShape_count, rowShape_element]

structure EncodedRow (arrays : BlockArrays width F) (values : Nat → F) (K r : Nat) : Prop where
  exponent : arrays.exponents r = (rowStats fp values K r).exponent
  mean : arrays.means r = (rowStats fp values K r).mean fp
  precision : arrays.precisions r = 8
  mantissa : ∀ k < K, arrays.mantissa (r * K + k) =
    roundElement fp
        (fun k => fp.mul (values (r * K + k)) (fastPow2 fp (-(rowStats fp values K r).exponent)))
        8 k (elementNoise K k) -
      integerMean fp width ((rowStats fp values K r).mean fp) (rowStats fp values K r).exponent 8

theorem encoded_row (memory : BlockArrays width F) (values : Nat → F) {r : Nat} (below : r < rows)
    (positive : 0 < K) :
    EncodedRow fp (encoded fp memory (rowShape rows K) values 0 8).toBlockArrays values K r := by
  have only : 0 < (rowShape rows K).numBlocks := by
    rw [rowShape_numBlocks positive]
    exact Nat.one_pos
  have stored := encoded_correct fp memory (rowShape rows K) values 0 (by decide : 0 < 8)
    (show r < (rowShape rows K).lanes from below) only
  obtain ⟨exponent, mean, precision, mantissa⟩ := stored
  rw [rowShape_blockFlatIdx positive, blockStats_row] at exponent mean
  rw [rowShape_blockFlatIdx positive] at precision
  constructor
  · exact exponent
  · exact mean
  · exact precision
  · intro k inside
    have element := mantissa k (by rw [rowShape_count]; exact inside)
    simp only [blockStats_row, rowShape_element, rowShape_count, ne_eq, not_true, if_false]
      at element
    rw [element]
    congr 2
    funext k
    simp [scaledElement, rowShape_element]

end Row

section Cells

variable {F : Type} (fp : FloatArith F)

theorem transposed_apply (B : Nat → F) {N K : Nat} (buffer : Nat → F) {r c : Nat} (below : r < N)
    (inside : c < K) : transposed B N K buffer (r * K + c) = B (c * N + r) := by
  apply grid_once (fun buffer : Nat → F => buffer (r * K + c)) (fun _ => B (c * N + r)) below inside
  · intro i j buffer _ within other
    exact Function.update_of_ne (rowMajor_apart inside within other) _ _
  · simp

theorem packCodes_apply {width : Nat} (mantissa : Nat → BitVec width) {rows K kBlock : Nat}
    (step : Nat) (buffer : Nat → BitVec width) {r c : Nat} (below : r < rows)
    (inside : c < kBlock) :
    packCodes mantissa rows K kBlock step buffer (r * kBlock + c) =
      mantissa (r * K + step * kBlock + c) + BitVec.ofNat width 127 := by
  apply grid_once (fun buffer : Nat → BitVec width => buffer (r * kBlock + c))
    (fun _ => mantissa (r * K + step * kBlock + c) + BitVec.ofNat width 127) below inside
  · intro i j buffer _ within other
    exact Function.update_of_ne (rowMajor_apart inside within other) _ _
  · simp

theorem updateCells_hit {α : Type} {mBlock nBlock N : Nat} (change : Nat → Nat → α → α)
    (C : Nat → α) (narrow : nBlock ≤ N) {r c : Nat} (below : r < mBlock) (inside : c < nBlock) :
    updateCells mBlock nBlock N change C (r * N + c) = change r c (C (r * N + c)) := by
  apply grid_once (fun C : Nat → α => C (r * N + c)) (change r c) below inside
  · intro i j C _ within other
    exact Function.update_of_ne (rowMajor_apart (by omega) (by omega) other) _ _
  · simp

theorem updateCells_miss {α : Type} {mBlock nBlock N : Nat} (change : Nat → Nat → α → α)
    (C : Nat → α) (narrow : nBlock ≤ N) {row col : Nat} (inside : col < N)
    (outside : ¬ (row < mBlock ∧ col < nBlock)) :
    updateCells mBlock nBlock N change C (row * N + col) = C (row * N + col) := by
  apply grid_keeps (P := fun current : Nat → α => current (row * N + col) = C (row * N + col))
  · rfl
  · intro i j current below within same
    rw [Function.update_of_ne (rowMajor_apart inside (by omega) (by omega)), same]

theorem staged_toNat {width : Nat} (bit : Int) (mean : BitVec width) :
    (((BitVec.ofInt width bit - mean + BitVec.ofNat width 127).toNat : Nat) : Int) =
      (bit - mean.toInt + 127) % 2 ^ width := by
  have whole : BitVec.ofInt width bit - mean + BitVec.ofNat width 127 =
      BitVec.ofInt width (bit - mean.toInt + 127) := by
    rw [Int.sub_eq_add_neg, BitVec.ofInt_add, BitVec.ofInt_add, BitVec.ofInt_neg,
      ← BitVec.sub_eq_add_neg, BitVec.ofInt_toInt]
    rfl
  have positive : (0 : Int) < 2 ^ width := Int.pow_pos (by decide)
  rw [whole, BitVec.toNat_ofInt, Int.toNat_of_nonneg]
  · norm_num
  · apply Int.emod_nonneg
    push_cast
    omega

theorem clearCells_apply {count : Nat} (C : Nat → F) {index : Nat} (below : index < count) :
    clearCells fp count C index = zeroFloat fp :=
  store_written count id (fun _ => zeroFloat fp) C (by simp; omega) index below

theorem div_eq_one_of_last {n d : Nat} (positive : 1 ≤ d) (last : n - 1 < n / d) : d = 1 := by
  by_contra other
  have half : n / d ≤ n / 2 := Nat.div_le_div_left (by omega) (by decide)
  omega

variable (backend : Backend)

theorem matmulTiled_cell (memory : TiledMemory F) (A B C : Nat → F) {M K N : Nat} {splits : Splits}
    {row col : Nat} (below : row < M / splits.m) (inside : col < N / splits.n) :
    matmulTiled fp backend memory A B C M K N splits (row * N + col) =
      forLoop splits.k
        (fun step value => fp.add value
          (dequantized fp (tiledBlockA fp memory A M K).toBlockArrays
            (tiledBlockB fp memory B K N).toBlockArrays (K / splits.k) row col
            (backend (tiledCall fp memory A B M K N splits step) (row * (N / splits.n) + col))))
        (zeroFloat fp) := by
  have narrow : N / splits.n ≤ N := Nat.div_le_self N splits.n
  have tall : M / splits.m ≤ M := Nat.div_le_self M splits.m
  have cleared := clearCells_apply fp C (rowMajor_lt (by omega : row < M) (by omega : col < N))
  rw [← cleared]
  apply forLoop_project fun C : Nat → F => C (row * N + col)
  intro step C _
  exact updateCells_hit _ C narrow below inside

theorem matmulTiled_skipped (memory : TiledMemory F) (A B C : Nat → F) {M K N : Nat}
    {splits : Splits} {row col : Nat} (below : row < M) (inside : col < N)
    (outside : ¬ (row < M / splits.m ∧ col < N / splits.n)) :
    matmulTiled fp backend memory A B C M K N splits (row * N + col) = zeroFloat fp := by
  rw [← clearCells_apply fp C (rowMajor_lt below inside)]
  apply forLoop_keeps (P := fun current : Nat → F =>
    current (row * N + col) = clearCells fp (M * N) C (row * N + col))
  · rfl
  · intro step current _ same
    rw [updateCells_miss _ current (Nat.div_le_self N splits.n) inside outside, same]

theorem matmulInt8_cell (memory : Int8Memory F) (A B C : Nat → F) {M K N row col : Nat}
    (below : row < M) (inside : col < N) :
    matmulInt8 fp backend memory A B C M K N (row * N + col) =
      dequantized fp (int8BlockA fp memory A M K).toBlockArrays
        (int8BlockB fp memory B K N).toBlockArrays K row col
        (backend (int8Call fp memory A B M K N) (row * N + col)) := by
  unfold matmulInt8
  exact updateCells_hit _ C le_rfl below inside

end Cells

end NpuMatmul
