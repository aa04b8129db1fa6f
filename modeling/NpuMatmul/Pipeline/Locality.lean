import NpuMatmul.Pipeline.KernelSpec

set_option autoImplicit false

namespace NpuMatmul

open Loop

section Line

variable {F : Type} (fp : FloatArith F) (K : Nat)

def lineStats (line : Nat → F) : BlockStats F :=
  forLoop K (fun k (stats : BlockStats F) => stats.scan fp (line k)) (.empty fp)

def lineStaged (width : Nat) (line : Nat → F) (k : Nat) : BitVec width :=
  let stats := lineStats fp K line
  roundElement fp (fun k => fp.mul (line k) (fastPow2 fp (-stats.exponent))) 8 k (elementNoise K k) -
    integerMean fp width (stats.mean fp) stats.exponent 8 + BitVec.ofNat width 127

def stagedLine (width : Nat) (line : Nat → F) (start kBlock : Nat) : List Nat :=
  (List.range kBlock).map fun k => (lineStaged fp K width line (start + k)).toNat

-- A cell from its row and its column, for a backend that computes one cell from their codes.
def lineCell (kSplit : Nat) (cell : List Nat → List Nat → BitVec 16) (row column : Nat → F) : F :=
  let kBlock := K / kSplit
  let statsA := lineStats fp K row
  let statsB := lineStats fp K column
  forLoop kSplit
    (fun step value =>
      let raw := cell (stagedLine fp K 16 row (step * kBlock) kBlock)
        (stagedLine fp K 8 column (step * kBlock) kBlock)
      fp.add value
        (fp.add
          (fp.mul (fp.ofInt (raw.toNat - 32768))
            (fastPow2 fp (statsA.exponent + statsB.exponent - 16)))
          (fp.mul (fp.mul (fp.ofInt kBlock) (statsA.mean fp)) (statsB.mean fp))))
    (zeroFloat fp)

variable {K} {line other : Nat → F}

theorem lineStats_congr (same : ∀ k < K, line k = other k) :
    lineStats fp K line = lineStats fp K other := by
  apply forLoop_congr
  intro k stats below
  rw [same k below]

theorem lineStaged_congr (same : ∀ k < K, line k = other k) {width k : Nat} (below : k < K) :
    lineStaged fp K width line k = lineStaged fp K width other k := by
  simp only [lineStaged, lineStats_congr fp same]
  rw [@roundElement_congr F fp width
    (fun k => fp.mul (line k) (fastPow2 fp (-(lineStats fp K other).exponent)))
    (fun k => fp.mul (other k) (fastPow2 fp (-(lineStats fp K other).exponent))) k
    (by simp only [same k below])]

theorem stagedLine_congr (same : ∀ k < K, line k = other k) {width start kBlock : Nat}
    (inside : start + kBlock ≤ K) :
    stagedLine fp K width line start kBlock = stagedLine fp K width other start kBlock := by
  apply List.map_congr_left
  intro k member
  have below := List.mem_range.mp member
  rw [lineStaged_congr fp same (by omega)]

theorem step_inside {kSplit step : Nat} (early : step < kSplit) :
    step * (K / kSplit) + K / kSplit ≤ K := by
  calc step * (K / kSplit) + K / kSplit = (step + 1) * (K / kSplit) := (Nat.succ_mul _ _).symm
    _ ≤ kSplit * (K / kSplit) := Nat.mul_le_mul_right _ early
    _ ≤ K := Nat.mul_div_le K kSplit

theorem lineCell_congr (kSplit : Nat) (cell : List Nat → List Nat → BitVec 16)
    {row row' column column' : Nat → F} (rows : ∀ k < K, row k = row' k)
    (columns : ∀ k < K, column k = column' k) :
    lineCell fp K kSplit cell row column = lineCell fp K kSplit cell row' column' := by
  unfold lineCell
  simp only [lineStats_congr fp rows, lineStats_congr fp columns]
  apply forLoop_congr
  intro step value early
  have inside := step_inside (K := K) early
  rw [stagedLine_congr fp rows inside, stagedLine_congr fp columns inside]

end Line

def wordRow (bytes : List (BitVec 8)) (K r : Nat) : List Nat :=
  (List.range K).map fun k => readWord bytes (r * K + k)

def byteRow (bytes : List (BitVec 8)) (K r : Nat) : List Nat :=
  (List.range K).map fun k => readByte bytes (r * K + k)

-- Every output cell is a fixed function of its input row and its weight row.
def Rowwise (backend : Backend) (K : Nat) (cell : List Nat → List Nat → BitVec 16) : Prop :=
  ∀ (M N : Nat) (bytesA bytesB : List (BitVec 8)), bytesA.length = M * K * 2 →
    bytesB.length = N * K → ∀ r < M, ∀ c < N,
      backend (fullyConnectedCall M K N bytesA bytesB) (r * N + c) =
        cell (wordRow bytesA K r) (byteRow bytesB K c)

section Kernel

variable {F : Type} (fp : FloatArith F) {backend : Backend} {K kSplit : Nat}
  {cell : List Nat → List Nat → BitVec 16} (memory : TiledMemory F) (A B C : Nat → F) {M N : Nat}

theorem row_staged {width : Nat} {arrays : BlockArrays width F} {values : Nat → F} {r : Nat}
    (line : Nat → F) (stored : EncodedRow fp arrays values K r)
    (same : ∀ k < K, values (r * K + k) = line k) {k : Nat} (below : k < K) :
    arrays.mantissa (r * K + k) + BitVec.ofNat width 127 = lineStaged fp K width line k := by
  rw [stored.mantissa k below, ← lineStaged_congr fp same below]
  rfl

theorem raw_local (positive : 0 < K) (rowwise : Rowwise backend (K / kSplit) cell) {step i j : Nat}
    (early : step < kSplit) (below : i < M) (inside : j < N) :
    backend (tiledCall fp memory A B M K N { m := 1, k := kSplit, n := 1 } step) (i * (N / 1) + j) =
      cell (stagedLine fp K 16 (fun k => A (i * K + k)) (step * (K / kSplit)) (K / kSplit))
        (stagedLine fp K 8 (fun k => B (k * N + j)) (step * (K / kSplit)) (K / kSplit)) := by
  have tall : i < M / 1 := by rwa [Nat.div_one]
  have wide : j < N / 1 := by rwa [Nat.div_one]
  have room := step_inside (K := K) early
  have storedA := encoded_row fp memory.blockA A below positive
  have storedB := encoded_row fp memory.blockB (transposed B N K fun _ => zeroFloat fp) inside
    positive
  have answer := rowwise (M / 1) (N / 1)
    (tiledCall fp memory A B M K N { m := 1, k := kSplit, n := 1 } step).a.bytes
    (tiledCall fp memory A B M K N { m := 1, k := kSplit, n := 1 } step).b.bytes
    (by simp [tiledCall, fullyConnectedCall, bytesOf])
    (by simp [tiledCall, fullyConnectedCall, bytesOf]) i tall j wide
  have left : wordRow (tiledCall fp memory A B M K N { m := 1, k := kSplit, n := 1 } step).a.bytes
        (K / kSplit) i =
      stagedLine fp K 16 (fun k => A (i * K + k)) (step * (K / kSplit)) (K / kSplit) := by
    apply List.map_congr_left
    intro k member
    have within := List.mem_range.mp member
    simp only [tiledCall, fullyConnectedCall]
    rw [readWord_wordBytes _ (rowMajor_lt tall within), packCodes_apply _ step _ tall within,
      Nat.add_assoc, tiledBlockA,
      row_staged fp (fun k => A (i * K + k)) storedA (fun _ _ => rfl) (by omega)]
  have right : byteRow (tiledCall fp memory A B M K N { m := 1, k := kSplit, n := 1 } step).b.bytes
        (K / kSplit) j =
      stagedLine fp K 8 (fun k => B (k * N + j)) (step * (K / kSplit)) (K / kSplit) := by
    apply List.map_congr_left
    intro k member
    have within := List.mem_range.mp member
    simp only [tiledCall, fullyConnectedCall]
    rw [readByte_bytesOf _ (rowMajor_lt wide within), packCodes_apply _ step _ wide within,
      Nat.add_assoc, tiledBlockB,
      row_staged fp (fun k => B (k * N + j)) storedB
        (fun _ bound => transposed_apply B _ inside bound) (by omega)]
  rw [left, right] at answer
  exact answer

theorem tiled_cell_local (positive : 0 < K) (rowwise : Rowwise backend (K / kSplit) cell) {i j : Nat}
    (below : i < M) (inside : j < N) :
    matmulTiled fp backend memory A B C M K N { m := 1, k := kSplit, n := 1 } (i * N + j) =
      lineCell fp K kSplit cell (fun k => A (i * K + k)) (fun k => B (k * N + j)) := by
  have tall : i < M / 1 := by rwa [Nat.div_one]
  have wide : j < N / 1 := by rwa [Nat.div_one]
  have storedA := encoded_row fp memory.blockA A below positive
  have storedB := encoded_row fp memory.blockB (transposed B N K fun _ => zeroFloat fp) inside
    positive
  have statsA : rowStats fp A K i = lineStats fp K fun k => A (i * K + k) := rfl
  have statsB : rowStats fp (transposed B N K fun _ => zeroFloat fp) K j =
      lineStats fp K fun k => B (k * N + j) :=
    lineStats_congr fp fun _ within => transposed_apply B _ inside within
  rw [matmulTiled_cell fp backend memory A B C tall wide]
  apply forLoop_congr
  intro step value early
  rw [raw_local fp memory A B positive rowwise early below inside]
  simp only [dequantized, tiledBlockA, tiledBlockB, storedA.exponent, storedA.mean,
    storedA.precision, storedB.exponent, storedB.mean, storedB.precision, statsA, statsB]
  rfl

end Kernel

section Runs

variable {F : Type} (fp : FloatArith F)

def permutedRows (A : Nat → F) (K : Nat) (order : Nat → Nat) (index : Nat) : F :=
  A (order (index / K) * K + index % K)

def permutedColumns (B : Nat → F) (N : Nat) (order : Nat → Nat) (index : Nat) : F :=
  B (index / N * N + order (index % N))

-- Zero rows below A and zero columns to the right of B, as the padding of m and n leaves them.
def appendedRows (A : Nat → F) (M K index : Nat) : F :=
  if index < M * K then A index else zeroFloat fp

def appendedColumns (B : Nat → F) (N N' index : Nat) : F :=
  if index % N' < N then B (index / N' * N + index % N') else zeroFloat fp

variable (backend : Backend) (K kSplit : Nat)

def splitCall (memory : TiledMemory F) (A B C : Nat → F) (M N : Nat) : Nat → F :=
  matmulTiled fp backend memory A B C M K N { m := 1, k := kSplit, n := 1 }

structure CellsLocal : Prop where
  cells : ∃ g : (Fin K → F) → (Fin K → F) → F,
    ∀ (memory : TiledMemory F) (A B C : Nat → F) (M N : Nat), ∀ i < M, ∀ j < N,
      splitCall fp backend K kSplit memory A B C M N (i * N + j) =
        g (fun k => A (i * K + k)) (fun k => B (k * N + j))
  permuted : ∀ (memory memory' : TiledMemory F) (A B C C' : Nat → F) (M N : Nat)
    (rows columns : Nat → Nat), (∀ i < M, rows i < M) → (∀ j < N, columns j < N) →
      ∀ i < M, ∀ j < N,
        splitCall fp backend K kSplit memory' (permutedRows A K rows) (permutedColumns B N columns)
            C' M N (i * N + j) =
          splitCall fp backend K kSplit memory A B C M N (rows i * N + columns j)
  padded : ∀ (memory memory' : TiledMemory F) (A B C C' : Nat → F) (M M' N N' : Nat), M ≤ M' →
    N ≤ N' → ∀ i < M, ∀ j < N,
      splitCall fp backend K kSplit memory' (appendedRows fp A M K) (appendedColumns fp B N N') C' M'
          N' (i * N' + j) =
        splitCall fp backend K kSplit memory A B C M N (i * N + j)
  repeated : ∀ (memory memory' : TiledMemory F) (A B C : Nat → F) (M N : Nat), ∀ i < M, ∀ j < N,
    splitCall fp backend K kSplit memory' A B (splitCall fp backend K kSplit memory A B C M N) M N
        (i * N + j) =
      splitCall fp backend K kSplit memory A B C M N (i * N + j)

variable {backend K kSplit}

def extended (line : Fin K → F) (k : Nat) : F :=
  if inside : k < K then line ⟨k, inside⟩ else zeroFloat fp

-- Every output cell depends on its own row and column only.
theorem tiled_cells_local {cell : List Nat → List Nat → BitVec 16} (positive : 0 < K)
    (rowwise : Rowwise backend (K / kSplit) cell) : CellsLocal fp backend K kSplit := by
  have value (memory : TiledMemory F) (A B C : Nat → F) {M N i j : Nat} (below : i < M)
      (inside : j < N) := tiled_cell_local fp memory A B C positive rowwise below inside
  constructor
  · refine ⟨fun row column =>
      lineCell fp K kSplit cell (extended fp row) (extended fp column), ?_⟩
    intro memory A B C M N i below j inside
    rw [splitCall, value memory A B C below inside]
    apply lineCell_congr
    · intro k within
      rw [extended, dif_pos within]
    · intro k within
      rw [extended, dif_pos within]
  · intro memory memory' A B C C' M N rows columns rowsBelow columnsBelow i below j inside
    rw [splitCall, splitCall, value memory' _ _ C' below inside,
      value memory A B C (rowsBelow i below) (columnsBelow j inside)]
    apply lineCell_congr
    · intro k within
      rw [permutedRows, rowMajor_div i within, rowMajor_mod i within]
    · intro k _
      rw [permutedColumns, rowMajor_div k inside, rowMajor_mod k inside]
  · intro memory memory' A B C C' M M' N N' tall wide i below j inside
    have insideWide : j < N' := by omega
    rw [splitCall, splitCall, value memory' _ _ C' (by omega : i < M') insideWide,
      value memory A B C below inside]
    apply lineCell_congr
    · intro k within
      rw [appendedRows, if_pos (rowMajor_lt below within)]
    · intro k _
      rw [appendedColumns, rowMajor_div k insideWide, rowMajor_mod k insideWide, if_pos inside]
  · intro memory memory' A B C M N i below j inside
    rw [splitCall, value memory' A B _ below inside, splitCall, value memory A B C below inside]

end Runs

def saturatingCell (row column : List Nat) : BitVec 16 :=
  BitVec.ofInt 16 (max 0 (min 65535 (32768 + ∑ k ∈ Finset.range row.length,
    (((row.getD k 0 : Nat) : Int) - 127) * (((column.getD k 0 : Nat) : Int) - 127))))

theorem saturatingBackend_rowwise (K : Nat) : Rowwise saturatingBackend K saturatingCell := by
  intro M N bytesA bytesB _ _ r below c inside
  have sums : centredProduct K bytesA bytesB r c = 32768 + ∑ k ∈ Finset.range
      (wordRow bytesA K r).length, ((((wordRow bytesA K r).getD k 0 : Nat) : Int) - 127) *
        ((((byteRow bytesB K c).getD k 0 : Nat) : Int) - 127) := by
    have length : (wordRow bytesA K r).length = K := by simp [wordRow]
    rw [length, centredProduct]
    congr 1
    apply Finset.sum_congr rfl
    intro k member
    have within := Finset.mem_range.mp member
    simp [wordRow, byteRow, within]
  simp only [saturatingBackend, fullyConnectedCall, tensorA, tensorC, rowMajor_div r inside,
    rowMajor_mod r inside, sums, saturatingCell]

theorem tiled_cells_local_saturating : CellsLocal (exact default) saturatingBackend 4 2 :=
  tiled_cells_local (exact default) (by decide) (saturatingBackend_rowwise (4 / 2))

end NpuMatmul
