import NpuMatmul.Dispatch.DefaultSplits
import NpuMatmul.Dispatch.Divisions

set_option autoImplicit false

namespace NpuMatmul

def Evaluation.Safe : Evaluation → Prop
  | .division divisor => divisor ≠ 0
  | .cut M K N mBlock kBlock nBlock =>
      0 < M → 0 < K → 0 < N → 0 < mBlock ∧ 0 < kBlock ∧ 0 < nBlock

def Safe {α : Type} (t : Arithmetic α) : Prop := ∀ evaluation ∈ t.calls, evaluation.Safe

structure Evaluates {α : Type} (t : Arithmetic α) (condition : Prop) (value : α) : Prop where
  safe : Safe t ↔ condition
  result : condition → t.result = some value

section Rules

variable {α β : Type} {t : Arithmetic α} {next : α → Arithmetic β} {condition : Prop} {value : α}

@[simp] theorem safe_pure : Safe (pure value : Arithmetic α) := by
  intro evaluation made
  cases made

theorem Evaluates.pure : Evaluates (pure value : Arithmetic α) True value := by
  constructor
  · simp
  · intro _
    rfl

theorem Evaluates.safe_bind (first : Evaluates t condition value) :
    Safe (t >>= next) ↔ condition ∧ Safe (next value) := by
  rw [Safe, Traced.forall_calls_bind_iff]
  constructor
  · intro safe
    have holds := first.safe.mp safe.1
    exact ⟨holds, safe.2 value (first.result holds)⟩
  · intro safe
    constructor
    · exact first.safe.mpr safe.1
    · intro other returned
      rw [first.result safe.1] at returned
      cases returned
      exact safe.2

theorem Evaluates.bind {second : Prop} {last : β} (first : Evaluates t condition value)
    (rest : Evaluates (next value) second last) :
    Evaluates (t >>= next) (condition ∧ second) last := by
  constructor
  · rw [first.safe_bind, rest.safe]
  · intro holds
    simp [Bind.bind, Traced.chain, first.result holds.1, rest.result holds.2]

theorem Evaluates.weaken {other : Prop} (first : Evaluates t condition value)
    (same : condition ↔ other) : Evaluates t other value := by
  constructor
  · rw [first.safe, same]
  · intro holds
    exact first.result (same.mpr holds)

theorem divide_evaluates (quotient : Int → Int → Int) (dividend divisor : Int) :
    Evaluates (divide quotient dividend divisor) (divisor ≠ 0) (quotient dividend divisor) := by
  constructor
  · simp [Safe, divide, Traced.called, Evaluation.Safe]
  · intro nonzero
    simp [divide, Traced.called, nonzero]

theorem safe_intArguments {values : List Int} {next : Unit → Arithmetic α} :
    Safe (intArguments values >>= next) ↔
      ((∀ value ∈ values, FitsInt value) → Safe (next ())) := by
  by_cases fits : ∀ value ∈ values, FitsInt value
  · rw [intArguments, if_pos fits, imp_iff_right fits]
    rfl
  · rw [intArguments, if_neg fits]
    refine iff_of_true ?_ fun all => absurd all fits
    intro evaluation made
    cases made

end Rules

section Quotients

-- Python and C++ differ on negative quotients alone.
theorem truncated_positive {size split : Int} (present : 0 < size) :
    0 < Int.tdiv size split ↔ 0 < split ∧ split ≤ size := by
  by_cases positive : 0 < split
  · rw [Int.tdiv_eq_ediv_of_nonneg present.le, ← Int.add_one_le_iff, zero_add,
      Int.le_ediv_iff_mul_le positive, one_mul]
    simp [positive]
  · have below := Int.tdiv_nonpos_of_nonneg_of_nonpos present.le (not_lt.mp positive)
    simp [positive, below.not_gt]

theorem floored_positive {size split : Int} (present : 0 < size) :
    0 < Int.fdiv size split ↔ 0 < split ∧ split ≤ size := by
  by_cases positive : 0 < split
  · rw [Int.fdiv_eq_ediv_of_nonneg size positive.le, ← Int.tdiv_eq_ediv_of_nonneg present.le]
    exact truncated_positive present
  · have below := Int.fdiv_nonpos_of_nonneg_of_nonpos present.le (not_lt.mp positive)
    simp [positive, below.not_gt]

end Quotients

structure PySplits.Cuts (splits : PySplits) (M K N : Int) : Prop where
  nonzero : splits.m ≠ 0 ∧ splits.k ≠ 0 ∧ splits.n ≠ 0
  nonempty : 0 < M → 0 < K → 0 < N →
    (0 < splits.m ∧ splits.m ≤ M) ∧ (0 < splits.k ∧ splits.k ≤ K) ∧
      (0 < splits.n ∧ splits.n ≤ N)

section Blocks

theorem cutBlocks_evaluates {quotient : Int → Int → Int}
    (positive : ∀ {size split : Int}, 0 < size →
      (0 < quotient size split ↔ 0 < split ∧ split ≤ size)) (M K N : Int) (splits : PySplits) :
    Evaluates (cutBlocks quotient M K N splits) (splits.Cuts M K N) () := by
  have last : Evaluates
      (.called (.cut M K N (quotient M splits.m) (quotient K splits.k) (quotient N splits.n))
        (some ()) : Arithmetic Unit)
      (0 < M → 0 < K → 0 < N →
        (0 < splits.m ∧ splits.m ≤ M) ∧ (0 < splits.k ∧ splits.k ≤ K) ∧
          (0 < splits.n ∧ splits.n ≤ N)) () := by
    constructor
    · have same (rows : 0 < M) (inner : 0 < K) (columns : 0 < N) :
          (0 < quotient M splits.m ∧ 0 < quotient K splits.k ∧ 0 < quotient N splits.n ↔
            (0 < splits.m ∧ splits.m ≤ M) ∧ (0 < splits.k ∧ splits.k ≤ K) ∧
              (0 < splits.n ∧ splits.n ≤ N)) := by
        rw [positive rows, positive inner, positive columns]
      simp only [Safe, Traced.called, List.mem_singleton, forall_eq, Evaluation.Safe]
      exact forall_congr' fun rows => forall_congr' fun inner => forall_congr' fun columns =>
        same rows inner columns
    · intro _
      rfl
  refine Evaluates.weaken (Evaluates.bind (divide_evaluates quotient M splits.m)
    (Evaluates.bind (divide_evaluates quotient K splits.k)
      (Evaluates.bind (divide_evaluates quotient N splits.n) last))) ?_
  constructor
  · intro holds
    exact ⟨⟨holds.1, holds.2.1, holds.2.2.1⟩, holds.2.2.2⟩
  · intro cuts
    exact ⟨cuts.nonzero.1, cuts.nonzero.2.1, cuts.nonzero.2.2, cuts.nonempty⟩

namespace BlockDims

theorem countBlocks_evaluates (block : BlockDims) :
    ∃ blocks, Evaluates block.countBlocks (block.blockSize ≠ 0) blocks :=
  ⟨_, divide_evaluates _ _ _⟩

theorem create_evaluates (rows cols size : Int) (columns : Bool) :
    Evaluates (create rows cols size columns) (size ≠ 0)
      { rows := rows, cols := cols, blockSize := size, blockColumns := columns } := by
  obtain ⟨blocks, counted⟩ := countBlocks_evaluates
    { rows := rows, cols := cols, blockSize := size, blockColumns := columns }
  refine Evaluates.weaken (Evaluates.bind counted .pure) ?_
  simp

theorem quantise_evaluates (block : BlockDims) :
    Evaluates block.quantise (block.blockSize ≠ 0) () := by
  obtain ⟨blocks, counted⟩ := block.countBlocks_evaluates
  refine Evaluates.weaken (Evaluates.bind counted (Evaluates.bind counted .pure)) ?_
  simp

theorem methods_safe {rows cols size : Int} {columns : Bool} {block : BlockDims}
    (constructed : (create rows cols size columns).result = some block) :
    ∀ method ∈ methods, Safe (method block) := by
  have nonzero : block.blockSize ≠ 0 := by
    by_cases zero : size = 0
    · simp [create, countBlocks, divide, Bind.bind, Traced.chain, Traced.called, zero]
        at constructed
    · have built := (create_evaluates rows cols size columns).result zero
      rw [built] at constructed
      cases constructed
      exact zero
  obtain ⟨blocks, counted⟩ := block.countBlocks_evaluates
  intro method listed
  have same : method block = block.countBlocks := by
    simp only [methods, List.mem_cons, List.not_mem_nil, or_false] at listed
    rcases listed with rfl | rfl | rfl | rfl <;> rfl
  rw [same, counted.safe]
  exact nonzero

end BlockDims

end Blocks

section Kernels

variable (answers : Answers)

def Answers.Quantises (backendChoice : Int) : Prop :=
  if answers.loaded then answers.graphValid = true
  else answers.interpreter = true ∧ backendChoice ≠ 3

theorem int8Arithmetic_safe (M K N : Int) : Safe (int8Arithmetic M K N) ↔ K ≠ 0 := by
  have left := BlockDims.create_evaluates M K K true
  have right := BlockDims.create_evaluates N K K true
  rw [int8Arithmetic, left.safe_bind, (BlockDims.quantise_evaluates _).safe_bind,
    right.safe_bind, (BlockDims.quantise_evaluates _).safe]
  simp

theorem fallbackArithmetic_safe (M K N : Int) :
    Safe (fallbackArithmetic answers M K N) ↔ K ≠ 0 := by
  have left := BlockDims.create_evaluates M K K true
  have right := BlockDims.create_evaluates K N K false
  rw [fallbackArithmetic, left.safe_bind, (BlockDims.quantise_evaluates _).safe_bind]
  by_cases matching : answers.popped = some (K, N)
  · simp [matching]
  · rw [if_neg matching, right.safe_bind, (BlockDims.quantise_evaluates _).safe]
    simp

theorem matmulInt8Arithmetic_safe (M K N backendChoice : Int) :
    Safe (matmulInt8Arithmetic answers M K N backendChoice) ↔
      (answers.Quantises backendChoice → K ≠ 0) := by
  rw [matmulInt8Arithmetic, Answers.Quantises]
  by_cases loaded : answers.loaded = true
  · rw [if_pos loaded, if_pos loaded]
    by_cases valid : answers.graphValid = true
    · rw [if_pos valid, int8Arithmetic_safe]
      simp [valid]
    · simp [valid]
  · rw [if_neg loaded, if_neg loaded]
    by_cases returns : (!answers.interpreter || decide (backendChoice = 3)) = true
    · rw [if_pos returns]
      have neither : ¬ (answers.interpreter = true ∧ backendChoice ≠ 3) := by
        simp only [Bool.or_eq_true, Bool.not_eq_true', decide_eq_true_eq] at returns
        grind
      simp [neither]
    · rw [if_neg returns, fallbackArithmetic_safe]
      have both : answers.interpreter = true ∧ backendChoice ≠ 3 := by
        simpa using returns
      simp [both]

theorem matmulTiledArithmetic_safe (M K N : Int) (splits : PySplits) :
    Safe (matmulTiledArithmetic answers M K N splits) ↔
      (answers.loaded = true → splits.Cuts M K N ∧ K ≠ 0) := by
  rw [matmulTiledArithmetic]
  by_cases loaded : answers.loaded = true
  · have cut := cutBlocks_evaluates truncated_positive M K N splits
    have left := BlockDims.create_evaluates M K K true
    have right := BlockDims.create_evaluates N K K true
    rw [if_pos loaded, cut.safe_bind, left.safe_bind, right.safe_bind,
      (BlockDims.quantise_evaluates _).safe_bind, (BlockDims.quantise_evaluates _).safe]
    simp [loaded]
  · simp [loaded]

end Kernels

section Package

theorem pad_evaluates (size : Nat) : Evaluates (pad size) True (padded size) := by
  have same : (Int.fdiv (size + 3) 4).toNat * 4 = padded size := by
    rw [padded, Int.fdiv_eq_ediv_of_nonneg _ (by decide)]
    omega
  rw [← same]
  refine Evaluates.weaken (Evaluates.bind (divide_evaluates Int.fdiv (size + 3) 4) .pure) ?_
  simp

theorem sizeSplit_evaluates (size : Nat) :
    Evaluates (sizeSplit size) True (Settings.defaultSplit size) := by
  refine Evaluates.weaken
    (Evaluates.bind (divide_evaluates Int.fdiv (size + 1023) 1024) .pure) ?_
  simp

-- The test of K_LIMIT keeps a limit of 0 from dividing.
theorem innerSplit_evaluates (settings : Settings) (k : Nat) :
    Evaluates (settings.innerSplit k) True (settings.defaultKSplit k) := by
  rw [Settings.innerSplit, Settings.defaultKSplit]
  by_cases limited : 0 < settings.kLimit
  · rw [if_pos limited, if_pos limited]
    refine Evaluates.weaken
      (Evaluates.bind (divide_evaluates Int.fdiv (k + settings.kLimit - 1) settings.kLimit)
        .pure) ?_
    simp [limited.ne']
  · rw [if_neg limited, if_neg limited]
    exact .pure

theorem elim_evaluates {default : Arithmetic Int} {value : Int}
    (computed : Evaluates default True value) (override : Option Int) :
    Evaluates (override.elim default pure) True (override.getD value) := by
  cases override with
  | none => exact computed
  | some split => exact .pure

theorem chooseSplits_evaluates (settings : Settings) (m k n : Nat) :
    Evaluates (settings.chooseSplits m k n) True (settings.splits m k n) := by
  have rows := elim_evaluates (sizeSplit_evaluates m) settings.globalMSplit
  have inner := elim_evaluates (innerSplit_evaluates settings k) settings.globalKSplit
  have columns := elim_evaluates (sizeSplit_evaluates n) settings.globalNSplit
  refine Evaluates.weaken
    (Evaluates.bind rows (Evaluates.bind inner (Evaluates.bind columns .pure))) ?_
  simp

theorem message_evaluates (settings : Settings) (m k n : Nat) (splits : PySplits) :
    Evaluates (settings.message m k n splits) (settings.verbose = true → splits.Cuts m k n)
      () := by
  rw [Settings.message]
  by_cases verbose : settings.verbose = true
  · rw [if_pos verbose, imp_iff_right verbose]
    exact cutBlocks_evaluates floored_positive m k n splits
  · rw [if_neg verbose]
    exact Evaluates.pure.weaken (by simp [verbose])

def PySplits.Fits (splits : PySplits) : Prop :=
  FitsInt splits.m ∧ FitsInt splits.k ∧ FitsInt splits.n

namespace Settings

-- The message and the kernel cut the matrices alike, but the kernel in the range of an int; and
-- a kernel that quantises needs an inner dimension.
def Admits (settings : Settings) (answers : Answers) (backendChoice : Int) (m k n : Nat) : Prop :=
  if settings.tiled m k n then
    (settings.verbose = true → (settings.splits m k n).Cuts m k n) ∧
      ((settings.splits m k n).Fits ∧ FitsInt backendChoice → answers.loaded = true →
        (settings.splits m k n).Cuts (asInt m) (asInt k) (asInt n) ∧ asInt k ≠ 0)
  else FitsInt backendChoice → answers.Quantises backendChoice → asInt k ≠ 0

theorem forwardArithmetic_safe (settings : Settings) (answers : Answers) (backendChoice : Int)
    (m k n : Nat) :
    Safe (settings.forwardArithmetic answers backendChoice m k n) ↔
      settings.Admits answers backendChoice m k n := by
  rw [forwardArithmetic, Admits]
  by_cases tiled : settings.tiled m k n = true
  · rw [if_pos tiled, if_pos tiled, (chooseSplits_evaluates settings m k n).safe_bind,
      (message_evaluates settings m k n _).safe_bind, safe_intArguments,
      matmulTiledArithmetic_safe]
    simp [PySplits.Fits, and_assoc]
  · rw [if_neg tiled, if_neg tiled, safe_intArguments, matmulInt8Arithmetic_safe]
    simp

theorem matmulPatchArithmetic_safe (settings : Settings) (answers : Answers) (backendChoice : Int)
    (frames m k n : Nat) :
    Safe (settings.matmulPatchArithmetic answers backendChoice (frames + 2) m k n) ↔
      settings.Admits answers backendChoice (padded m) (padded k) (padded n) := by
  have twice (size : Nat) : padded (padded size) = padded size := by
    unfold padded
    omega
  rw [matmulPatchArithmetic, (pad_evaluates m).safe_bind, (pad_evaluates k).safe_bind,
    (pad_evaluates n).safe_bind]
  simp only [true_and]
  by_cases padding : padded m ≠ m ∨ padded k ≠ k ∨ padded n ≠ n
  · rw [if_pos padding, matmulPatchArithmetic, (pad_evaluates _).safe_bind,
      (pad_evaluates _).safe_bind, (pad_evaluates _).safe_bind]
    simp only [twice, ne_eq, not_true, or_self, if_false, true_and]
    exact forwardArithmetic_safe settings answers backendChoice _ _ _
  · rw [if_neg padding, forwardArithmetic_safe]
    simp only [not_or, not_not] at padding
    rw [padding.1, padding.2.1, padding.2.2]

def AdmitsPrepare (settings : Settings) (m k n : Nat) : Prop :=
  settings.tiled m k n = true → (settings.splits m k n).Cuts m k n

theorem prepareMatmulArithmetic_safe (settings : Settings) (m k n : Nat) :
    Safe (settings.prepareMatmulArithmetic m k n) ↔
      settings.AdmitsPrepare (padded m) (padded k) (padded n) := by
  rw [prepareMatmulArithmetic, (pad_evaluates m).safe_bind, (pad_evaluates k).safe_bind,
    (pad_evaluates n).safe_bind, AdmitsPrepare]
  simp only [true_and]
  by_cases tiled : settings.tiled (padded m) (padded k) (padded n) = true
  · rw [if_pos tiled, (chooseSplits_evaluates settings _ _ _).safe_bind,
      (cutBlocks_evaluates floored_positive _ _ _ _).safe]
    simp [tiled]
  · simp [tiled]

theorem select_none_iff (settings : Settings) (m k n : Nat) :
    settings.select m k n = none ↔ settings.tiled m k n = true ∧
      (settings.message m k n (settings.splits m k n)).result = none := by
  rw [select]
  by_cases tiled : settings.tiled m k n = true
  · rw [if_pos tiled, message]
    by_cases verbose : settings.verbose = true
    · simp only [verbose, Bool.true_and, if_true, tiled, true_and]
      by_cases zero : (settings.splits m k n).hasZero = true
      · simp only [PySplits.hasZero, Bool.or_eq_true, decide_eq_true_eq] at zero
        rcases zero with (zero | zero) | zero <;>
          simp [PySplits.hasZero, cutBlocks, divide, Bind.bind, Traced.chain, Traced.called, zero]
        all_goals grind
      · simp only [PySplits.hasZero, Bool.or_eq_true, decide_eq_true_eq, not_or] at zero
        simp [PySplits.hasZero, cutBlocks, divide, Bind.bind, Traced.chain, Traced.called, zero]
    · simp [verbose, Pure.pure, Traced.returned]
  · simp [tiled]

end Settings

end Package

-- The divisors and the blocks are right just for the splits and the inner dimensions admitted,
-- and no method of a constructed block divides by zero.
theorem divisions_safe_iff (settings : Settings) (answers : Answers) (backendChoice : Int)
    (frames m k n : Nat) :
    (Safe (settings.matmulPatchArithmetic answers backendChoice (frames + 2) m k n) ↔
        settings.Admits answers backendChoice (padded m) (padded k) (padded n)) ∧
      (Safe (settings.prepareMatmulArithmetic m k n) ↔
        settings.AdmitsPrepare (padded m) (padded k) (padded n)) ∧
      ∀ (rows cols size : Int) (columns : Bool) (block : BlockDims),
        (BlockDims.create rows cols size columns).result = some block →
          ∀ method ∈ BlockDims.methods, Safe (method block) := by
  refine ⟨settings.matmulPatchArithmetic_safe answers backendChoice frames m k n,
    settings.prepareMatmulArithmetic_safe m k n, ?_⟩
  intro rows cols size columns block constructed
  exact BlockDims.methods_safe constructed

def readyAnswers : Answers :=
  { loaded := true, graphValid := true, interpreter := false, popped := none }

-- Without columns the block size is 0, and 2000 parts of 1028 rows are empty.
theorem no_columns_divides_by_zero :
    ¬ Safe (untouched.matmulPatchArithmetic readyAnswers 1 2 1028 0 4) ∧
      ¬ Safe ({ untouched with globalMSplit := some 2000 }.prepareMatmulArithmetic 1028 4 4) := by
  constructor
  · intro safe
    exact safe (.division 0) (by decide) rfl
  · intro safe
    have blocks := safe (.cut 1028 4 4 0 4 4) (by decide)
    exact absurd (blocks (by decide) (by decide) (by decide)).1 (by decide)

end NpuMatmul
