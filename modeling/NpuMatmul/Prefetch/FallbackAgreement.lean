import NpuMatmul.Pipeline.TiledExact
import NpuMatmul.Prefetch.Transparency

set_option autoImplicit false

namespace NpuMatmul

open Loop Binary32

section Line

variable {K : Nat} {line : Nat → ℚ}

theorem abs_lineMean_le (normal : NormalLine K line) (positive : 0 < K) :
    |lineMean K line| ≤ 256 := by
  have below := fittedExponent_upper normal.finite normal.nonzero
  have mean := abs_average_lt positive below
  have scale := pow_pos' (-fittedExponent K line + 8)
  have small : |average K line * 2 ^ (-fittedExponent K line + 8)| < (256 : Int) := by
    rw [abs_mul, abs_of_pos scale]
    calc |average K line| * 2 ^ (-fittedExponent K line + 8)
        < 2 ^ fittedExponent K line * 2 ^ (-fittedExponent K line + 8) := by gcongr
      _ = ((256 : Int) : ℚ) := by
          rw [← pow_split, add_neg_cancel_left]
          norm_num
  exact abs_roundHalfAway_le small

theorem lineMean_fits (normal : NormalLine K line) (positive : 0 < K) :
    Fits 16 (lineMean K line) := by
  have mean := abs_lineMean_le normal positive
  rw [abs_le] at mean
  constructor <;> omega

-- The integer that a line's element stands for: its rounding bit less the rounded mean.
def lineInteger (K : Nat) (line : Nat → ℚ) (k : Nat) : Int := lineBit K line k - lineMean K line

variable (host : Unspecified)

theorem word_toInt (normal : NormalLine K line) {k : Nat} (within : k < K) :
    (BitVec.ofInt 16 (lineBit K line k) - (exact host).toSigned 16 (lineMean K line : ℚ)).toInt =
      lineInteger K line k := by
  have mean := abs_lineMean_le normal (by omega)
  have bit := abs_lineBit_le_one normal within
  rw [abs_le] at mean bit
  have difference : BitVec.ofInt 16 (lineBit K line k) - BitVec.ofInt 16 (lineMean K line) =
      BitVec.ofInt 16 (lineInteger K line k) := by
    rw [lineInteger, Int.sub_eq_add_neg, BitVec.ofInt_add, BitVec.ofInt_neg,
      BitVec.sub_eq_add_neg]
  rw [exact_toSigned_int host (lineMean_fits normal (Nat.zero_lt_of_lt within)), difference]
  apply BitVec.toInt_ofInt_eq_self (by decide) <;> unfold lineInteger <;> omega

structure StagedRow (K : Nat) (line : Nat → ℚ) : Prop where
  normal : NormalLine K line
  least : ∀ k < K, -127 ≤ lineInteger K line k

structure StagedColumn (K : Nat) (line : Nat → ℚ) : Prop where
  normal : NormalLine K line
  mean : Fits 8 (lineMean K line)
  range : ∀ k < K, -127 ≤ lineInteger K line k ∧ lineInteger K line k ≤ 128

theorem lineCode_row (staged : StagedRow K line) {k : Nat} (within : k < K) :
    lineCode host 16 K line k = lineInteger K line k := by
  have mean := abs_lineMean_le staged.normal (by omega)
  have bit := abs_lineBit_le_one staged.normal within
  have least := staged.least k within
  rw [abs_le] at mean bit
  rw [lineCode, castMean_fits host (by decide)
    (lineMean_fits staged.normal (Nat.zero_lt_of_lt within))]
  unfold lineInteger at least ⊢
  omega

theorem lineCode_column (staged : StagedColumn K line) {k : Nat} (within : k < K) :
    lineCode host 8 K line k = lineInteger K line k := by
  have range := staged.range k within
  rw [lineCode, castMean_fits host (by decide) staged.mean]
  unfold lineInteger at range ⊢
  omega

end Line

section Operands

variable (host : Unspecified) {M K N : Nat}

structure HoldsLine (arrays : BlockArrays 16 ℚ) (place : Nat → Nat) (lane K : Nat)
    (line : Nat → ℚ) : Prop where
  exponent : arrays.exponents lane = fittedExponent K line
  mean : arrays.means lane = average K line
  precision : arrays.precisions lane = 8
  integer : ∀ k < K, (arrays.mantissa (place k)).toInt = lineInteger K line k

theorem holds_row {arrays : BlockArrays 16 ℚ} {A : Nat → ℚ} {r : Nat}
    (stored : EncodedRow (exact host) arrays A K r) (normal : NormalLine K (row A K r)) :
    HoldsLine arrays (fun k => r * K + k) r K (row A K r) := by
  constructor
  · rw [stored.exponent, rowStats_exponent]
  · rw [stored.mean, rowStats_mean]
  · exact stored.precision
  · intro k within
    rw [line_mantissa host stored normal within, word_toInt host normal within]

theorem holds_column {arrays : BlockArrays 16 ℚ} {B : Nat → ℚ} {c : Nat}
    (stored : EncodedAt (exact host) arrays (columnShape K N) B c 0 0 8)
    (normal : NormalLine K (column B N c)) :
    HoldsLine arrays (fun k => k * N + c) c K (column B N c) := by
  obtain ⟨exponent, mean, precision, mantissa⟩ := stored
  have elements : (fun offset => B ((columnShape K N).element c 0 offset)) = column B N c := by
    funext k
    rw [columnShape_element]
    rfl
  simp only [columnShape_blockFlatIdx, blockStats_exponent, blockStats_mean, columnShape_count,
    elements] at exponent mean precision mantissa
  refine ⟨exponent, mean, precision, ?_⟩
  intro k within
  obtain ⟨finite, nonzero, low, high⟩ := normal
  have bound : |B ((columnShape K N).element c 0 k)| < 2 ^ fittedExponent K (column B N c) := by
    rw [columnShape_element]
    exact fittedExponent_upper finite nonzero k within
  have rounded := roundScaled_exact host 16 (by decide : 8 ≤ 23) (columnShape K N) B low (by omega)
    bound (elementNoise K k)
  have stored := mantissa k within
  simp only [ne_eq, not_true, if_false, rounded] at stored
  rw [integerMean_exact host 16 _ (by omega) high, columnShape_element] at stored
  rw [stored, ← word_toInt host ⟨finite, nonzero, low, high⟩ within]
  rfl

theorem holds_same {left right : FixedPointBlock 16 ℚ} {line : Nat → ℚ} {c : Nat}
    (same : SameBlock K N left right) (inside : c < N)
    (holds : HoldsLine right.toBlockArrays (fun k => k * N + c) c K line) :
    HoldsLine left.toBlockArrays (fun k => k * N + c) c K line := by
  constructor
  · rw [same.exponents c inside, holds.exponent]
  · rw [same.means c inside, holds.mean]
  · rw [same.precisions c inside, holds.precision]
  · intro k within
    rw [same.mantissa _ (rowMajor_lt within inside), holds.integer k within]

theorem dequantizedFallback_exact {blockA blockB : BlockArrays 16 ℚ} {place other : Nat → Nat}
    {r c : Nat} {line column : Nat → ℚ} (left : HoldsLine blockA place r K line)
    (right : HoldsLine blockB other c K column) (output : Int) :
    dequantizedFallback (exact host) blockA blockB K r c output =
      output * fastPow2 (exact host) (fittedExponent K line + fittedExponent K column - 16) +
        K * average K line * average K column := by
  simp only [dequantizedFallback, left.exponent, left.mean, left.precision, right.exponent,
    right.mean, right.precision, exact_add, exact_mul, exact_ofInt]
  push_cast
  rfl

end Operands

section Agreement

def PrefetchState.matrix {F : Type} (s : PrefetchState F) (address : Nat) : Nat → F :=
  fun i => s.memory (address + i)

def PrefetchState.persistA {F : Type} (fp : FloatArith F) (s : PrefetchState F)
    (call : FallbackCall F) : List (BitVec 16) :=
  copied (call.M * call.K)
    (encoded fp call.arraysA (rowShape call.M call.K) (s.matrix call.A) 0 8).mantissa

def PrefetchState.persistB {F : Type} (fp : FloatArith F) (s : PrefetchState F)
    (call : FallbackCall F) : List (BitVec 16) :=
  copied (call.K * call.N) (s.rightOperand fp call).mantissa

def integerProduct (K : Nat) (line other : Nat → ℚ) : Int :=
  ∑ k ∈ Finset.range K, lineInteger K line k * lineInteger K other k

theorem copied_getD {count index : Nat} (source : Nat → BitVec 16) (below : index < count) :
    (copied count source).getD index 0 = source index := by
  simp [copied, below]

variable (host : Unspecified) {s : PrefetchState ℚ} {call : FallbackCall ℚ}

theorem persistA_integers {r k : Nat} (below : r < call.M) (within : k < call.K)
    (normal : NormalLine call.K (row (s.matrix call.A) call.K r)) :
    ((s.persistA (exact host) call).getD (r * call.K + k) 0).toInt =
      lineInteger call.K (row (s.matrix call.A) call.K r) k := by
  have stored := encoded_row (exact host) call.arraysA (s.matrix call.A) below
    (Nat.zero_lt_of_lt within)
  rw [PrefetchState.persistA, copied_getD _ (rowMajor_lt below within)]
  exact (holds_row host stored normal).integer k within

theorem holds_rightOperand (tracked : s.Tracked (exact host)) (quantises : call.Quantises)
    (current : FrontCurrent s (.matmul call)) {c : Nat} (inside : c < call.N)
    (normal : NormalLine call.K (column (s.matrix call.B) call.N c)) :
    HoldsLine (s.rightOperand (exact host) call).toBlockArrays (fun k => k * call.N + c) c call.K
      (column (s.matrix call.B) call.N c) := by
  have one : 0 < (columnShape call.K call.N).numBlocks := by
    rw [columnShape_numBlocks quantises.2.2]
    exact Nat.one_pos
  exact holds_same (rightOperand_quantised tracked quantises current default) inside
    (holds_column host (encoded_correct (exact host) default (columnShape call.K call.N)
      (s.matrix call.B) 0 (by decide) inside one) normal)

theorem persistB_integers (tracked : s.Tracked (exact host)) (quantises : call.Quantises)
    (current : FrontCurrent s (.matmul call)) {k c : Nat} (within : k < call.K)
    (inside : c < call.N) (normal : NormalLine call.K (column (s.matrix call.B) call.N c)) :
    ((s.persistB (exact host) call).getD (k * call.N + c) 0).toInt =
      lineInteger call.K (column (s.matrix call.B) call.N c) k := by
  rw [PrefetchState.persistB, copied_getD _ (rowMajor_lt within inside)]
  exact (holds_rightOperand host tracked quantises current inside normal).integer k within

theorem fallback_cell (tracked : s.Tracked (exact host)) (quantises : call.Quantises)
    (current : FrontCurrent s (.matmul call)) {output : Nat → Int}
    (answer : call.invoke (s.persistA (exact host) call) (s.persistB (exact host) call) =
      some output) :
    ∃ next, s.step (exact host) (.matmul call) = some next ∧ ∀ r < call.M, ∀ c < call.N,
      NormalLine call.K (row (s.matrix call.A) call.K r) →
        NormalLine call.K (column (s.matrix call.B) call.N c) →
          next.memory (call.C + (r * call.N + c)) =
            output (r * call.N + c) *
              cellScale host (s.matrix call.A) (s.matrix call.B) call.K call.N r c +
            call.K * average call.K (row (s.matrix call.A) call.K r) *
              average call.K (column (s.matrix call.B) call.N c) := by
  have positive := quantises.2.2
  let fixedA := encoded (exact host) call.arraysA (rowShape call.M call.K) (s.matrix call.A) 0 8
  let fixedB := s.rightOperand (exact host) call
  have moved : s.step (exact host) (.matmul call) =
      some (s.matmulInt8Quantised (exact host) call) := by
    simp [PrefetchState.step, PrefetchState.matmulInt8, quantises.1, quantises.2.1, positive.ne']
  refine ⟨_, moved, ?_⟩
  intro r below c inside normalA normalB
  have left : HoldsLine fixedA.toBlockArrays (fun k => r * call.K + k) r call.K _ :=
    holds_row host (encoded_row (exact host) call.arraysA (s.matrix call.A) below positive) normalA
  have right := holds_rightOperand host tracked quantises current inside normalB
  have answered : call.invoke
      (copied (call.M * call.K) (encoded (exact host) call.arraysA (rowShape call.M call.K)
        (fun i => s.memory (call.A + i)) 0 8).mantissa)
      (copied (call.K * call.N) (s.rightOperand (exact host) call).mantissa) = some output :=
    answer
  have written : (s.matmulInt8Quantised (exact host) call).memory (call.C + (r * call.N + c)) =
      dequantizedFallback (exact host) fixedA.toBlockArrays fixedB.toBlockArrays call.K r c
        (output (r * call.N + c)) := by
    simp only [PrefetchState.matmulInt8Quantised, answered]
    rw [writeBack, if_pos (Nat.le_add_right _ _), Nat.add_sub_cancel_left]
    exact updateCells_hit _ _ le_rfl below inside
  rw [written, dequantizedFallback_exact host left right]
  rfl

variable {backend : Backend} {tiled : TiledMemory ℚ} {splits : Splits}

-- The same matrices go to the tiled kernel.
structure ComparedCall (host : Unspecified) (s : PrefetchState ℚ) (call : FallbackCall ℚ)
    (backend : Backend) (tiled : TiledMemory ℚ) (splits : Splits) : Prop where
  quantises : call.Quantises
  current : FrontCurrent s (.matmul call)
  multiplies : Multiplies (exact host) backend tiled (s.matrix call.A) (s.matrix call.B) call.M
    call.K call.N splits
  divides : splits.k ∣ call.K

theorem tiled_cell_integers (compared : ComparedCall host s call backend tiled splits)
    (C : Nat → ℚ) {r c : Nat} (below : r < call.M / splits.m) (inside : c < call.N / splits.n)
    (rowStaged : StagedRow call.K (row (s.matrix call.A) call.K r))
    (columnStaged : StagedColumn call.K (column (s.matrix call.B) call.N c)) :
    matmulTiled (exact host) backend tiled (s.matrix call.A) (s.matrix call.B) C call.M call.K
        call.N splits (r * call.N + c) =
      integerProduct call.K (row (s.matrix call.A) call.K r)
          (column (s.matrix call.B) call.N c) *
        cellScale host (s.matrix call.A) (s.matrix call.B) call.K call.N r c +
      call.K * average call.K (row (s.matrix call.A) call.K r) *
        average call.K (column (s.matrix call.B) call.N c) := by
  have tall : r < call.M := lt_of_lt_of_le below (Nat.div_le_self _ _)
  have wide : c < call.N := lt_of_lt_of_le inside (Nat.div_le_self _ _)
  have codes : ∀ k ∈ Finset.range call.K,
      codeProduct (exact host) tiled (s.matrix call.A) (s.matrix call.B) call.M call.K call.N r c
          k =
        lineInteger call.K (row (s.matrix call.A) call.K r) k *
          lineInteger call.K (column (s.matrix call.B) call.N c) k := by
    intro k member
    have within := Finset.mem_range.mp member
    rw [codeProduct, codeA_exact host tiled _ rowStaged.normal tall within,
      codeB_exact host tiled _ columnStaged.normal wide within, lineCode_row host rowStaged within,
      lineCode_column host columnStaged within]
  rw [tiled_cell_exact host tiled _ _ backend C compared.quantises.2.2 compared.multiplies below
    inside, Nat.mul_div_cancel' compared.divides, Finset.sum_congr rfl codes]
  rfl

end Agreement

structure OperandIntegers (s : PrefetchState ℚ) (call : FallbackCall ℚ)
    (a b : List (BitVec 16)) : Prop where
  left : ∀ r < call.M, NormalLine call.K (row (s.matrix call.A) call.K r) → ∀ k < call.K,
    (a.getD (r * call.K + k) 0).toInt = lineInteger call.K (row (s.matrix call.A) call.K r) k
  right : ∀ c < call.N, NormalLine call.K (column (s.matrix call.B) call.N c) → ∀ k < call.K,
    (b.getD (k * call.N + c) 0).toInt = lineInteger call.K (column (s.matrix call.B) call.N c) k

def productInts (K N : Nat) (a b : List (BitVec 16)) (index : Nat) : Int :=
  ∑ k ∈ Finset.range K,
    (a.getD (index / N * K + k) 0).toInt * (b.getD (k * N + index % N) 0).toInt

theorem OperandIntegers.product {s : PrefetchState ℚ} {call : FallbackCall ℚ}
    {a b : List (BitVec 16)} (operands : OperandIntegers s call a b) {r c : Nat}
    (below : r < call.M) (inside : c < call.N)
    (normalA : NormalLine call.K (row (s.matrix call.A) call.K r))
    (normalB : NormalLine call.K (column (s.matrix call.B) call.N c)) :
    productInts call.K call.N a b (r * call.N + c) =
      integerProduct call.K (row (s.matrix call.A) call.K r)
        (column (s.matrix call.B) call.N c) := by
  rw [productInts, rowMajor_div r inside, rowMajor_mod r inside]
  apply Finset.sum_congr rfl
  intro k member
  have within := Finset.mem_range.mp member
  rw [operands.left r below normalA k within, operands.right c inside normalB k within]

-- After any run of the prefetch threads, the fallback of matmul_int8 differs from the tiled kernel
-- by what the interpreter's integer product is off, at the scale of the cell.
theorem fallback_agrees (host : Unspecified) {memory : Nat → ℚ}
    {actions : List (PrefetchAction ℚ)} {s : PrefetchState ℚ}
    (reached : Runs.after (PrefetchState.step (exact host)) (.start memory) actions = some s)
    {call : FallbackCall ℚ} {backend : Backend} {tiled : TiledMemory ℚ} {splits : Splits}
    (compared : ComparedCall host s call backend tiled splits) :
    OperandIntegers s call (s.persistA (exact host) call) (s.persistB (exact host) call) ∧
      ∀ output, call.invoke (s.persistA (exact host) call) (s.persistB (exact host) call) =
          some output →
        ∃ next, s.step (exact host) (.matmul call) = some next ∧
          ∀ C : Nat → ℚ, ∀ r < call.M / splits.m, ∀ c < call.N / splits.n,
            StagedRow call.K (row (s.matrix call.A) call.K r) →
              StagedColumn call.K (column (s.matrix call.B) call.N c) →
                next.memory (call.C + (r * call.N + c)) =
                  matmulTiled (exact host) backend tiled (s.matrix call.A) (s.matrix call.B) C
                      call.M call.K call.N splits (r * call.N + c) +
                    (output (r * call.N + c) -
                        integerProduct call.K (row (s.matrix call.A) call.K r)
                          (column (s.matrix call.B) call.N c) : Int) *
                      cellScale host (s.matrix call.A) (s.matrix call.B) call.K call.N r c := by
  have tracked : s.Tracked (exact host) :=
    Runs.after_kept (fun _ _ _ kept moved => kept.step moved) (start_tracked memory) reached
  refine ⟨⟨?_, ?_⟩, ?_⟩
  · intro r below normal k within
    exact persistA_integers host below within normal
  · intro c inside normal k within
    exact persistB_integers host tracked compared.quantises compared.current within inside normal
  · intro output answer
    obtain ⟨next, moved, cells⟩ :=
      fallback_cell host tracked compared.quantises compared.current answer
    refine ⟨next, moved, ?_⟩
    intro C r below c inside rowStaged columnStaged
    rw [tiled_cell_integers host compared C below inside rowStaged columnStaged,
      cells r (lt_of_lt_of_le below (Nat.div_le_self _ _)) c
        (lt_of_lt_of_le inside (Nat.div_le_self _ _)) rowStaged.normal columnStaged.normal]
    push_cast
    ring

section Sample

def sampleProduct : FallbackCall ℚ :=
  { A := 0
    B := 10
    C := 20
    M := 2
    K := 2
    N := 1
    backendChoice := 0
    arraysA := default
    arraysB := default
    interpreter := true
    invoke := fun a b => some (productInts 2 1 a b)
    invokeFloats := fun _ _ => none }

def halvesMemory (address : Nat) : ℚ := if address ∈ [0, 3, 10] then -1 / 2 else 0

def prefetchTwo : List (PrefetchAction ℚ) :=
  .prefetchWeights [10] [2] [1] (fun _ => default) :: List.replicate 4 (.runTask 0)

theorem prefetchTwo_reached :
    ∃ s, Runs.after (PrefetchState.step (exact default)) (.start halvesMemory) prefetchTwo =
        some s ∧
      s.memory = halvesMemory ∧ FrontCurrent s (.matmul sampleProduct) := by
  refine ⟨_, rfl, rfl, ?_⟩
  rintro - front rest ⟨⟩ - - i -
  exact ⟨rfl, rfl⟩

theorem fallback_agrees_sample :
    ∃ s next, Runs.after (PrefetchState.step (exact default)) (.start halvesMemory) prefetchTwo =
        some s ∧
      s.step (exact default) (.matmul sampleProduct) = some next ∧
        ∀ C : Nat → ℚ, ∀ r < 2, next.memory (20 + r) =
          matmulTiled (exact default) saturatingBackend default halvesMemory
            (fun i => halvesMemory (10 + i)) C 2 2 1 whole r := by
  obtain ⟨s, reached, kept, current⟩ := prefetchTwo_reached
  have matrixA : s.matrix sampleProduct.A = halvesMemory := by
    funext i
    rw [PrefetchState.matrix, kept]
    exact congrArg halvesMemory (Nat.zero_add i)
  have matrixB : s.matrix sampleProduct.B = fun i => halvesMemory (10 + i) := by
    funext i
    rw [PrefetchState.matrix, kept]
    rfl
  have multiplies : Multiplies (exact default) saturatingBackend default halvesMemory
      (fun i => halvesMemory (10 + i)) 2 2 1 whole := by
    unfold Multiplies ComputesProduct
    decide +kernel
  have compared : ComparedCall default s sampleProduct saturatingBackend default whole := by
    refine ⟨⟨rfl, by decide, by decide⟩, current, ?_, one_dvd _⟩
    rw [matrixA, matrixB]
    exact multiplies
  have normalRows : ∀ r < 2, NormalLine 2 (row halvesMemory 2 r) := by decide +kernel
  have leastRows : ∀ r < 2, ∀ k < 2, -127 ≤ lineInteger 2 (row halvesMemory 2 r) k := by
    decide +kernel
  have columnStaged : StagedColumn 2 (column (fun i => halvesMemory (10 + i)) 1 0) :=
    ⟨by decide +kernel, by decide +kernel, by decide +kernel⟩
  obtain ⟨operands, agrees⟩ := fallback_agrees default reached compared
  obtain ⟨next, moved, cells⟩ := agrees (productInts sampleProduct.K sampleProduct.N _ _) rfl
  refine ⟨s, next, reached, moved, ?_⟩
  intro C r below
  have rowStaged : StagedRow 2 (row halvesMemory 2 r) := ⟨normalRows r below, leastRows r below⟩
  rw [← matrixA] at rowStaged
  rw [← matrixB] at columnStaged
  have cell := cells C r below 0 (by decide) rowStaged columnStaged
  have exactly := operands.product below (by decide) rowStaged.normal columnStaged.normal
  rw [exactly, sub_self, Int.cast_zero, zero_mul, add_zero, add_zero, matrixA, matrixB]
    at cell
  rwa [show r * sampleProduct.N = r from Nat.mul_one r] at cell

end Sample

end NpuMatmul
