import NpuMatmul.Pipeline.Agreement
import NpuMatmul.Pipeline.Locality

set_option autoImplicit false

namespace NpuMatmul

open Loop Binary32

section Line

variable {K : Nat} {line : Nat → ℚ} {shift : Int}

def scaledLine (line : Nat → ℚ) (shift : Int) (k : Nat) : ℚ := line k * 2 ^ shift

def Rescales (K : Nat) (line : Nat → ℚ) (shift : Int) : Prop :=
  (∀ k < K, line k = 0) ∨ NormalLine K line ∧ NormalLine K (scaledLine line shift)

instance : Decidable (Rescales K line shift) :=
  inferInstanceAs
    (Decidable ((∀ k < K, line k = 0) ∨ NormalLine K line ∧ NormalLine K (scaledLine line shift)))

theorem zpow_lt {e k : Int} (below : (2 : ℚ) ^ e < 2 ^ k) : e < k :=
  (zpow_lt_zpow_iff_right₀ (by norm_num)).mp below

theorem fittedExponent_scaled (normal : NormalLine K line)
    (normalScaled : NormalLine K (scaledLine line shift)) :
    fittedExponent K (scaledLine line shift) = fittedExponent K line + shift := by
  have unit := pow_pos' shift
  have size (k : Nat) : |scaledLine line shift k| = |line k| * 2 ^ shift := by
    rw [scaledLine, abs_mul, abs_of_pos unit]
  obtain ⟨k, below, lower⟩ := fittedExponent_lower normal.finite normal.nonzero
  obtain ⟨j, inside, lowerScaled⟩ :=
    fittedExponent_lower normalScaled.finite normalScaled.nonzero
  have upper := fittedExponent_upper normal.finite normal.nonzero j inside
  have upperScaled := fittedExponent_upper normalScaled.finite normalScaled.nonzero k below
  rw [size] at lowerScaled upperScaled
  have least : (2 : ℚ) ^ (fittedExponent K line - 1 + shift) <
      2 ^ fittedExponent K (scaledLine line shift) := by
    rw [pow_split]
    exact lt_of_le_of_lt (mul_le_mul_of_nonneg_right lower unit.le) upperScaled
  have most : (2 : ℚ) ^ (fittedExponent K (scaledLine line shift) - 1) <
      2 ^ (fittedExponent K line + shift) := by
    rw [pow_split _ shift]
    exact lt_of_le_of_lt lowerScaled (mul_lt_mul_of_pos_right upper unit)
  have first := zpow_lt least
  have second := zpow_lt most
  omega

theorem average_scaled (K : Nat) (line : Nat → ℚ) (shift : Int) :
    average K (scaledLine line shift) = average K line * 2 ^ shift := by
  unfold average scaledLine
  rw [← Finset.sum_mul]
  ring

theorem unscaled (q : ℚ) (e shift precision : Int) :
    q * 2 ^ shift * 2 ^ (-(e + shift) + precision) = q * 2 ^ (-e + precision) := by
  rw [mul_assoc, ← pow_split]
  congr 2
  ring

variable (host : Unspecified)

theorem row_first (K : Nat) (line : Nat → ℚ) : row line K 0 = line := by
  funext k
  rw [row, zero_mul, zero_add]

theorem rowStats_first (K : Nat) (line : Nat → ℚ) :
    rowStats (exact host) line K 0 = lineStats (exact host) K line := by
  simp only [rowStats, lineStats, zero_mul, zero_add]

theorem lineStats_exponent (K : Nat) (line : Nat → ℚ) :
    (lineStats (exact host) K line).exponent = fittedExponent K line := by
  rw [← rowStats_first, rowStats_exponent, row_first]

theorem lineStats_mean (K : Nat) (line : Nat → ℚ) :
    (lineStats (exact host) K line).mean (exact host) = average K line := by
  rw [← rowStats_first, rowStats_mean, row_first]

theorem lineStaged_normal (normal : NormalLine K line) (width k : Nat) :
    lineStaged (exact host) K width line k =
      roundElement (exact host) (fun k => line k * 2 ^ (-fittedExponent K line)) 8 k
          (elementNoise K k) -
        (exact host).toSigned width
          (roundHalfAway (average K line * 2 ^ (-fittedExponent K line + 8)) : ℚ) +
        BitVec.ofNat width 127 := by
  obtain ⟨_, _, low, high⟩ := normal
  simp only [lineStaged, lineStats_exponent, lineStats_mean, exact_mul,
    fastPow2_exact host low (by omega)]
  rw [integerMean_exact host width _ (by omega) (by omega)]
  rfl

theorem lineStaged_scaled (rescales : Rescales K line shift) (width : Nat) {k : Nat}
    (within : k < K) :
    lineStaged (exact host) K width (scaledLine line shift) k =
      lineStaged (exact host) K width line k := by
  obtain zero | ⟨normal, normalScaled⟩ := rescales
  · apply lineStaged_congr (exact host) _ within
    intro j below
    rw [scaledLine, zero j below, zero_mul]
  · rw [lineStaged_normal host normal, lineStaged_normal host normalScaled,
      fittedExponent_scaled normal normalScaled, average_scaled, unscaled]
    have element (j : Nat) : scaledLine line shift j * 2 ^ (-(fittedExponent K line + shift)) =
        line j * 2 ^ (-fittedExponent K line) := by
      have same := unscaled (line j) (fittedExponent K line) shift 0
      rwa [add_zero, add_zero] at same
    simp only [element]

theorem stagedLine_scaled (rescales : Rescales K line shift) (width : Nat) {start kBlock : Nat}
    (inside : start + kBlock ≤ K) :
    stagedLine (exact host) K width (scaledLine line shift) start kBlock =
      stagedLine (exact host) K width line start kBlock := by
  apply List.map_congr_left
  intro k member
  have below := List.mem_range.mp member
  rw [lineStaged_scaled host rescales width (by omega)]

end Line

section Operands

variable (host : Unspecified) {rows K : Nat} {values values' : Nat → ℚ} {shift : Nat → Int}

structure RowsScaled (rows K : Nat) (values values' : Nat → ℚ) (shift : Nat → Int) : Prop where
  scaled : ∀ r < rows, ∀ k < K, row values' K r k = scaledLine (row values K r) (shift r) k
  rescales : ∀ r < rows, Rescales K (row values K r) (shift r)

theorem mantissa_scaled {width : Nat} (memory memory' : BlockArrays width ℚ)
    (scaled : RowsScaled rows K values values' shift) {r k : Nat} (below : r < rows)
    (within : k < K) :
    (encoded (exact host) memory' (rowShape rows K) values' 0 8).mantissa (r * K + k) =
      (encoded (exact host) memory (rowShape rows K) values 0 8).mantissa (r * K + k) := by
  have stored := encoded_row (exact host) memory values below (by omega : 0 < K)
  have stored' := encoded_row (exact host) memory' values' below (by omega : 0 < K)
  have code := row_staged (exact host) (row values K r) stored (fun _ _ => rfl) within
  have code' := row_staged (exact host) (scaledLine (row values K r) (shift r)) stored'
    (scaled.scaled r below) within
  rw [lineStaged_scaled host (scaled.rescales r below) width within, ← code] at code'
  exact (BitVec.add_left_inj _).mp code'

theorem packCodes_congr {width : Nat} {mantissa mantissa' : Nat → BitVec width}
    {kBlock step : Nat} (same : ∀ r < rows, ∀ k < K, mantissa' (r * K + k) = mantissa (r * K + k))
    (inside : step * kBlock + kBlock ≤ K) (buffer buffer' : Nat → BitVec width) {index : Nat}
    (below : index < rows * kBlock) :
    packCodes mantissa' rows K kBlock step buffer' index =
      packCodes mantissa rows K kBlock step buffer index := by
  obtain ⟨row, column, split⟩ := rowMajor_split below
  rw [← split, packCodes_apply _ _ _ row column, packCodes_apply _ _ _ row column, Nat.add_assoc,
    same _ row _ (by omega)]

theorem bytesOf_congr {buffer buffer' : Nat → BitVec 8} {size : Nat}
    (same : ∀ i < size, buffer' i = buffer i) : bytesOf buffer' size = bytesOf buffer size :=
  List.map_congr_left fun i member => same i (List.mem_range.mp member)

theorem wordBytes_congr {buffer buffer' : Nat → BitVec 16} {size i : Nat}
    (same : ∀ i < size, buffer' i = buffer i) (below : i < size * 2) :
    wordBytes buffer' i = wordBytes buffer i := by
  rw [wordBytes, wordBytes, same (i / 2) (by omega)]

end Operands

section Cell

variable (host : Unspecified) {K : Nat} {line other : Nat → ℚ} {s t : Int}

def cellTerm (K kBlock : Nat) (line other : Nat → ℚ) (raw : BitVec 16) : ℚ :=
  (raw.toNat - 32768) *
      fastPow2 (exact host) (fittedExponent K line + fittedExponent K other - 16) +
    kBlock * average K line * average K other

-- The two scalings leave every scale factor of the cell a normal float.
structure CellRescales (K : Nat) (line other : Nat → ℚ) (s t : Int) : Prop where
  normal : NormalLine K line ∧ NormalLine K (scaledLine line s)
  normalOther : NormalLine K other ∧ NormalLine K (scaledLine other t)
  low : -126 ≤ fittedExponent K line + fittedExponent K other - 16 + min 0 (s + t)
  high : fittedExponent K line + fittedExponent K other - 16 + max 0 (s + t) ≤ 127

theorem cellRescales_iff : CellRescales K line other s t ↔
    (NormalLine K line ∧ NormalLine K (scaledLine line s)) ∧
      (NormalLine K other ∧ NormalLine K (scaledLine other t)) ∧
        -126 ≤ fittedExponent K line + fittedExponent K other - 16 + min 0 (s + t) ∧
          fittedExponent K line + fittedExponent K other - 16 + max 0 (s + t) ≤ 127 :=
  ⟨fun ⟨normal, normalOther, low, high⟩ => ⟨normal, normalOther, low, high⟩,
    fun ⟨normal, normalOther, low, high⟩ => ⟨normal, normalOther, low, high⟩⟩

instance : Decidable (CellRescales K line other s t) := decidable_of_iff _ cellRescales_iff.symm

theorem cellTerm_scaled (rescales : CellRescales K line other s t) (kBlock : Nat)
    (raw : BitVec 16) :
    cellTerm host K kBlock (scaledLine line s) (scaledLine other t) raw =
      cellTerm host K kBlock line other raw * 2 ^ (s + t) := by
  obtain ⟨⟨normal, normalScaled⟩, ⟨normalOther, normalOtherScaled⟩, low, high⟩ := rescales
  have exponent : fittedExponent K (scaledLine line s) + fittedExponent K (scaledLine other t) -
      16 = fittedExponent K line + fittedExponent K other - 16 + (s + t) := by
    rw [fittedExponent_scaled normal normalScaled,
      fittedExponent_scaled normalOther normalOtherScaled]
    ring
  unfold cellTerm
  rw [exponent, fastPow2_exact host (by omega) (by omega),
    fastPow2_exact host (by omega) (by omega), average_scaled, average_scaled, pow_split _ (s + t),
    pow_split s t]
  ring

theorem lineCell_terms (kSplit : Nat) (cell : List Nat → List Nat → BitVec 16) :
    lineCell (exact host) K kSplit cell line other =
      ∑ step ∈ Finset.range kSplit, cellTerm host K (K / kSplit) line other
        (cell (stagedLine (exact host) K 16 line (step * (K / kSplit)) (K / kSplit))
          (stagedLine (exact host) K 8 other (step * (K / kSplit)) (K / kSplit))) := by
  simp only [lineCell, lineStats_exponent, lineStats_mean, exact_add, exact_mul, exact_ofInt]
  rw [zeroFloat_exact, forLoop_add, zero_add]
  simp only [cellTerm, Int.cast_sub, Int.cast_natCast, Int.cast_ofNat]

theorem lineCell_scaled (rescales : CellRescales K line other s t) (kSplit : Nat)
    (cell : List Nat → List Nat → BitVec 16) :
    lineCell (exact host) K kSplit cell (scaledLine line s) (scaledLine other t) =
      lineCell (exact host) K kSplit cell line other * 2 ^ (s + t) := by
  rw [lineCell_terms, lineCell_terms, Finset.sum_mul]
  apply Finset.sum_congr rfl
  intro step member
  have inside := step_inside (K := K) (Finset.mem_range.mp member)
  rw [stagedLine_scaled host (.inr rescales.normal) 16 inside,
    stagedLine_scaled host (.inr rescales.normalOther) 8 inside, cellTerm_scaled host rescales]

end Cell

section Kernels

variable (host : Unspecified) (backend : Backend) {M K N : Nat} (A B : Nat → ℚ) (s t : Nat → Int)

def scaledRows (K : Nat) (index : Nat) : ℚ := A index * 2 ^ s (index / K)

def scaledColumns (N : Nat) (index : Nat) : ℚ := B index * 2 ^ t (index % N)

theorem row_scaledRows {r k : Nat} (within : k < K) :
    row (scaledRows A s K) K r k = scaledLine (row A K r) (s r) k := by
  rw [row, scaledRows, rowMajor_div r within]
  rfl

theorem column_scaledColumns {c : Nat} (inside : c < N) (k : Nat) :
    column (scaledColumns B t N) N c k = scaledLine (column B N c) (t c) k := by
  rw [column, scaledColumns, rowMajor_mod k inside]
  rfl

theorem cellTerm_congr {kBlock : Nat} {line line' other other' : Nat → ℚ}
    (same : ∀ k < K, line' k = line k) (sameOther : ∀ k < K, other' k = other k)
    (raw : BitVec 16) : cellTerm host K kBlock line' other' raw =
      cellTerm host K kBlock line other raw := by
  simp only [cellTerm, fittedExponent_congr same, fittedExponent_congr sameOther,
    average_congr same, average_congr sameOther]

theorem cell_scaled {r c : Nat} (inside : c < N)
    (rescales : CellRescales K (row A K r) (column B N c) (s r) (t c)) (kBlock : Nat)
    (raw : BitVec 16) :
    cellTerm host K kBlock (row (scaledRows A s K) K r) (column (scaledColumns B t N) N c) raw =
      cellTerm host K kBlock (row A K r) (column B N c) raw * 2 ^ (s r + t c) := by
  rw [← cellTerm_scaled host rescales]
  exact cellTerm_congr host (fun _ within => row_scaledRows A s within)
    (fun k _ => column_scaledColumns B t inside k) raw

variable (rows : ∀ r < M, Rescales K (row A K r) (s r))
  (columns : ∀ c < N, Rescales K (column B N c) (t c))

include rows in
theorem rowsScaled : RowsScaled M K A (scaledRows A s K) s :=
  ⟨fun _ _ _ within => row_scaledRows A s within, rows⟩

include columns in
theorem columnsScaled (buffer buffer' : Nat → ℚ) :
    RowsScaled N K (transposed B N K buffer) (transposed (scaledColumns B t N) N K buffer') t := by
  have line (c : Nat) (inside : c < N) := transposed_row (K := K) B buffer inside
  constructor
  · intro c inside k within
    rw [transposed_row _ buffer' inside k within, column_scaledColumns B t inside, scaledLine,
      scaledLine, line c inside k within]
  · intro c inside
    obtain zero | ⟨normal, normalScaled⟩ := columns c inside
    · left
      intro k within
      rw [line c inside k within, zero k within]
    · right
      refine ⟨normal.congr (line c inside), normalScaled.congr ?_⟩
      intro k within
      rw [scaledLine, scaledLine, line c inside k within]

include rows columns

theorem tiledCall_scaled (memory memory' : TiledMemory ℚ) (splits : Splits) {step : Nat}
    (early : step < splits.k) :
    tiledCall (exact host) memory' (scaledRows A s K) (scaledColumns B t N) M K N splits step =
      tiledCall (exact host) memory A B M K N splits step := by
  have room := step_inside (K := K) early
  have tall : M / splits.m ≤ M := Nat.div_le_self M splits.m
  have wide : N / splits.n ≤ N := Nat.div_le_self N splits.n
  have mantissaA : ∀ r < M / splits.m, ∀ k < K,
      (tiledBlockA (exact host) memory' (scaledRows A s K) M K).mantissa (r * K + k) =
        (tiledBlockA (exact host) memory A M K).mantissa (r * K + k) := by
    intro r below k within
    exact mantissa_scaled host memory.blockA memory'.blockA (rowsScaled A s rows)
      (below.trans_le tall) within
  have mantissaB : ∀ c < N / splits.n, ∀ k < K,
      (tiledBlockB (exact host) memory' (scaledColumns B t N) K N).mantissa (c * K + k) =
        (tiledBlockB (exact host) memory B K N).mantissa (c * K + k) := by
    intro c inside k within
    exact mantissa_scaled host memory.blockB memory'.blockB (columnsScaled B t columns _ _)
      (inside.trans_le wide) within
  refine congrArg₂ (fullyConnectedCall (M / splits.m) (K / splits.k) (N / splits.n)) ?_ ?_
  · apply bytesOf_congr
    intro i below
    exact wordBytes_congr (fun _ below => packCodes_congr mantissaA room _ _ below) below
  · apply bytesOf_congr
    intro i below
    exact packCodes_congr mantissaB room _ _ below

theorem int8Call_scaled (memory : Int8Memory ℚ) :
    int8Call (exact host) memory (scaledRows A s K) (scaledColumns B t N) M K N =
      int8Call (exact host) memory A B M K N := by
  have codesA : ∀ i < M * K, (int8BlockA (exact host) memory (scaledRows A s K) M K).mantissa i =
      (int8BlockA (exact host) memory A M K).mantissa i := by
    intro i below
    obtain ⟨row, within, split⟩ := rowMajor_split below
    rw [← split]
    exact mantissa_scaled host memory.blockA memory.blockA (rowsScaled A s rows) row within
  have codesB : ∀ i < N * K, (int8BlockB (exact host) memory (scaledColumns B t N) K N).mantissa i =
      (int8BlockB (exact host) memory B K N).mantissa i := by
    intro i below
    obtain ⟨column, within, split⟩ := rowMajor_split below
    rw [← split]
    exact mantissa_scaled host memory.blockB memory.blockB (columnsScaled B t columns _ _) column
      within
  unfold int8Call
  dsimp only
  rw [store_congr memory.uA (fun _ _ => rfl) fun i below => congrArg (· + 127#8) (codesA i below),
    store_congr memory.uB (fun _ _ => rfl) fun i below => congrArg (· + 127#8) (codesB i below)]

end Kernels

section Cells

variable (host : Unspecified) (backend : Backend) {M K N : Nat} (A B C : Nat → ℚ)

theorem matmulTiled_terms (positive : 0 < K) (memory : TiledMemory ℚ) {splits : Splits} {r c : Nat}
    (below : r < M / splits.m) (inside : c < N / splits.n) :
    matmulTiled (exact host) backend memory A B C M K N splits (r * N + c) =
      ∑ step ∈ Finset.range splits.k,
        cellTerm host K (K / splits.k) (row A K r) (column B N c)
          (backend (tiledCall (exact host) memory A B M K N splits step)
            (r * (N / splits.n) + c)) := by
  have tall : M / splits.m ≤ M := Nat.div_le_self M splits.m
  have wide : N / splits.n ≤ N := Nat.div_le_self N splits.n
  have term (step : Nat) (value : ℚ) (_ : step < splits.k) :
      (exact host).add value
          (dequantized (exact host) (tiledBlockA (exact host) memory A M K).toBlockArrays
            (tiledBlockB (exact host) memory B K N).toBlockArrays (K / splits.k) r c
            (backend (tiledCall (exact host) memory A B M K N splits step)
              (r * (N / splits.n) + c))) =
        value + cellTerm host K (K / splits.k) (row A K r) (column B N c)
          (backend (tiledCall (exact host) memory A B M K N splits step)
            (r * (N / splits.n) + c)) := by
    rw [dequantized_exact host memory A B positive (by omega) (by omega), exact_add]
    rfl
  rw [matmulTiled_cell (exact host) backend memory A B C below inside, zeroFloat_exact,
    forLoop_congr term, forLoop_add, zero_add]

theorem matmulInt8_term (positive : 0 < K) (memory : Int8Memory ℚ) {r c : Nat} (below : r < M)
    (inside : c < N) :
    matmulInt8 (exact host) backend memory A B C M K N (r * N + c) =
      cellTerm host K K (row A K r) (column B N c)
        (backend (int8Call (exact host) memory A B M K N) (r * N + c)) := by
  rw [matmulInt8_value (exact host) backend memory A B C positive below inside,
    cellValue_exact host A B inside]
  rfl

variable (s t : Nat → Int)

-- A power of two on a row of A or a column of B leaves what the NPU is sent, and comes out of every
-- cell of the row or the column.
structure KernelsScale (M K N : Nat) : Prop where
  tiledCall : ∀ (memory memory' : TiledMemory ℚ) (splits : Splits), ∀ step < splits.k,
    tiledCall (exact host) memory' (scaledRows A s K) (scaledColumns B t N) M K N splits step =
      tiledCall (exact host) memory A B M K N splits step
  tiled : ∀ (memory memory' : TiledMemory ℚ) (C C' : Nat → ℚ) (splits : Splits), ∀ r < M, ∀ c < N,
    CellRescales K (row A K r) (column B N c) (s r) (t c) →
      matmulTiled (exact host) backend memory' (scaledRows A s K) (scaledColumns B t N) C' M K N
          splits (r * N + c) =
        matmulTiled (exact host) backend memory A B C M K N splits (r * N + c) * 2 ^ (s r + t c)
  int8Call : ∀ memory : Int8Memory ℚ,
    int8Call (exact host) memory (scaledRows A s K) (scaledColumns B t N) M K N =
      int8Call (exact host) memory A B M K N
  int8 : ∀ (memory : Int8Memory ℚ) (C C' : Nat → ℚ), ∀ r < M, ∀ c < N,
    CellRescales K (row A K r) (column B N c) (s r) (t c) →
      matmulInt8 (exact host) backend memory (scaledRows A s K) (scaledColumns B t N) C' M K N
          (r * N + c) =
        matmulInt8 (exact host) backend memory A B C M K N (r * N + c) * 2 ^ (s r + t c)

-- The kernels have no absolute scale, for any splits and any backend.
theorem kernels_scale (positive : 0 < K) (rows : ∀ r < M, Rescales K (row A K r) (s r))
    (columns : ∀ c < N, Rescales K (column B N c) (t c)) :
    KernelsScale host backend A B s t M K N := by
  have sent (memory memory' : TiledMemory ℚ) (splits : Splits) (step : Nat)
      (early : step < splits.k) :=
    tiledCall_scaled host A B s t rows columns memory memory' splits early
  have sentInt8 := int8Call_scaled host A B s t rows columns
  refine ⟨sent, ?_, sentInt8, ?_⟩
  · intro memory memory' C C' splits r below c inside rescales
    by_cases computed : r < M / splits.m ∧ c < N / splits.n
    · obtain ⟨tall, wide⟩ := computed
      rw [matmulTiled_terms host backend _ _ C' positive memory' tall wide,
        matmulTiled_terms host backend A B C positive memory tall wide, Finset.sum_mul]
      apply Finset.sum_congr rfl
      intro step member
      rw [sent memory memory' splits step (Finset.mem_range.mp member)]
      exact cell_scaled host A B s t inside rescales _ _
    · rw [matmulTiled_skipped (exact host) backend memory' _ _ C' below inside computed,
        matmulTiled_skipped (exact host) backend memory A B C below inside computed,
        zeroFloat_exact, zero_mul]
  · intro memory C C' r below c inside rescales
    rw [matmulInt8_term host backend _ _ C' positive memory below inside,
      matmulInt8_term host backend A B C positive memory below inside, sentInt8]
    exact cell_scaled host A B s t inside rescales _ _

end Cells

section Sample

def sampleRows (i : Nat) : ℚ := i + 1

def sampleColumns (i : Nat) : ℚ := 2 - i

-- The second of the rows 1, 2 and 3, 4 times 8, and the second of two columns halved.
theorem kernels_scale_sample :
    (∀ r < 2, ∀ c < 2,
      CellRescales 2 (row sampleRows 2 r) (column sampleColumns 2 c) (3 * r) (-c)) ∧
      KernelsScale default saturatingBackend sampleRows sampleColumns (3 * ·) (-·) 2 2 2 := by
  have rows : ∀ r < 2, Rescales 2 (row sampleRows 2 r) (3 * r) := by decide +kernel
  have columns : ∀ c < 2, Rescales 2 (column sampleColumns 2 c) (-c) := by decide +kernel
  constructor
  · decide +kernel
  · exact kernels_scale default saturatingBackend sampleRows sampleColumns (3 * ·) (-·)
      (by decide) rows columns

end Sample

end NpuMatmul
