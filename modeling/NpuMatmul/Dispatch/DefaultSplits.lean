import Mathlib.Algebra.Order.Floor.Div
import NpuMatmul.Dispatch.WarmCache

set_option autoImplicit false

namespace NpuMatmul

section Parts

-- The number of parts of at most limit that a size is cut into, at least one.
def partCount (size limit : Nat) : Nat := max 1 (size ⌈/⌉ limit)

variable {size limit : Nat} (bounded : 0 < limit)
include bounded

theorem partCount_tiles :
    partCount size limit * (size / partCount size limit) = size ↔ size ⌈/⌉ limit ∣ size := by
  rcases Nat.eq_zero_or_pos (size ⌈/⌉ limit) with none | some
  · have empty : size = 0 := by
      have enough := (ceilDiv_le_iff_le_mul bounded).mp (Nat.le_of_eq none)
      omega
    simp [empty]
  · rw [partCount, max_eq_right some]
    exact Nat.mul_div_eq_iff_dvd

theorem part_le : size / partCount size limit ≤ limit := by
  apply Nat.div_le_of_le_mul
  rw [Nat.mul_comm]
  exact (ceilDiv_le_iff_le_mul bounded).mp (le_max_right _ _)

end Parts

theorem parts_cover {size count : Nat} (whole : count * (size / count) = size) :
    ∀ i < size, ∃ block < count, ∃ offset < size / count,
      i = block * (size / count) + offset := by
  intro i below
  rw [← whole] at below
  obtain ⟨first, second, position⟩ := Loop.rowMajor_split below
  exact ⟨_, first, _, second, position.symm⟩

namespace Settings

variable {settings : Settings}

theorem defaultSplit_count (size : Nat) : defaultSplit size = partCount size 1024 := by
  have quotient : Int.fdiv (size + 1023) 1024 = ((size ⌈/⌉ 1024 : Nat) : Int) := by
    rw [Nat.ceilDiv_eq_add_pred_div, Int.ofNat_fdiv]
    rfl
  rw [defaultSplit, quotient, partCount]
  push_cast
  rfl

theorem defaultKSplit_count (limited : 0 < settings.kLimit) (k : Nat) :
    settings.defaultKSplit k = partCount k settings.kLimit.toNat := by
  have limit : ((settings.kLimit.toNat : Nat) : Int) = settings.kLimit :=
    Int.toNat_of_nonneg (by omega)
  have sum : ((k + settings.kLimit.toNat - 1 : Nat) : Int) = k + settings.kLimit - 1 := by omega
  have quotient : Int.fdiv (k + settings.kLimit - 1) settings.kLimit =
      ((k ⌈/⌉ settings.kLimit.toNat : Nat) : Int) := by
    rw [Nat.ceilDiv_eq_add_pred_div, Int.ofNat_fdiv, sum, limit]
  rw [defaultKSplit, if_pos limited, quotient, partCount]
  push_cast
  rfl

end Settings

structure Settings.Unset (settings : Settings) : Prop where
  m : settings.globalMSplit = none
  k : settings.globalKSplit = none
  n : settings.globalNSplit = none

structure CutExactly (size : Nat) (split : Int) : Prop where
  whole : split * Int.fdiv size split = size
  covers : ∀ i < size, ∃ block < split.toNat, ∃ offset < size / split.toNat,
    i = block * (size / split.toNat) + offset

structure TilesExactly (settings : Settings) (m k n : Nat) (splits : PySplits) : Prop where
  rows : CutExactly m splits.m
  inner : CutExactly k splits.k
  columns : CutExactly n splits.n
  rowLimit : Int.fdiv m splits.m ≤ 1024
  columnLimit : Int.fdiv n splits.n ≤ 1024
  innerLimit : 0 < settings.kLimit → Int.fdiv k splits.k ≤ settings.kLimit

theorem cutExactly_iff {size count : Nat} :
    CutExactly size count ↔ count * (size / count) = size := by
  have quotient : Int.fdiv size count = ((size / count : Nat) : Int) := (Int.ofNat_fdiv _ _).symm
  constructor
  · intro cut
    have whole := cut.whole
    rw [quotient] at whole
    exact_mod_cast whole
  · intro whole
    constructor
    · rw [quotient]
      exact_mod_cast whole
    · rw [Int.toNat_natCast]
      exact parts_cover whole

theorem select_splits {settings : Settings} {m k n : Nat} {splits : PySplits}
    (selected : settings.select m k n = some (.matmulTiled splits)) :
    settings.tiled m k n = true ∧ splits = settings.splits m k n := by
  unfold Settings.select at selected
  by_cases tiled : settings.tiled m k n = true
  · rw [if_pos tiled] at selected
    simp only at selected
    split at selected
    · simp at selected
    · simp only [Option.some.injEq, Kernel.matmulTiled.injEq] at selected
      exact ⟨tiled, selected.symm⟩
  · rw [if_neg tiled] at selected
    simp at selected

theorem tilesExactly_iff {settings : Settings} (unset : settings.Unset) (m k n : Nat) :
    TilesExactly settings m k n (settings.splits m k n) ↔
      m ⌈/⌉ 1024 ∣ m ∧ n ⌈/⌉ 1024 ∣ n ∧
        (0 < settings.kLimit → k ⌈/⌉ settings.kLimit.toNat ∣ k) := by
  have rows : (settings.splits m k n).m = partCount m 1024 := by
    simp [Settings.splits, unset.m, Settings.defaultSplit_count]
  have columns : (settings.splits m k n).n = partCount n 1024 := by
    simp [Settings.splits, unset.n, Settings.defaultSplit_count]
  have inner : (settings.splits m k n).k = settings.defaultKSplit k := by
    simp [Settings.splits, unset.k]
  have blockLimit (size : Nat) : Int.fdiv size (partCount size 1024) ≤ 1024 := by
    have bound := @part_le size 1024 (by decide)
    rw [← Int.ofNat_fdiv]
    exact_mod_cast bound
  have innerCut : CutExactly k (settings.defaultKSplit k) ↔
      (0 < settings.kLimit → k ⌈/⌉ settings.kLimit.toNat ∣ k) := by
    by_cases limited : 0 < settings.kLimit
    · rw [Settings.defaultKSplit_count limited, cutExactly_iff, partCount_tiles (by omega)]
      simp [limited]
    · have one : settings.defaultKSplit k = ((1 : Nat) : Int) := if_neg limited
      rw [one, cutExactly_iff]
      simp [limited]
  rw [← innerCut]
  constructor
  · intro tiles
    have first := tiles.rows
    have second := tiles.columns
    have third := tiles.inner
    rw [rows, cutExactly_iff, partCount_tiles (by decide)] at first
    rw [columns, cutExactly_iff, partCount_tiles (by decide)] at second
    rw [inner] at third
    exact ⟨first, second, third⟩
  · intro divides
    obtain ⟨first, second, third⟩ := divides
    constructor
    · rw [rows, cutExactly_iff, partCount_tiles (by decide)]
      exact first
    · rw [inner]
      exact third
    · rw [columns, cutExactly_iff, partCount_tiles (by decide)]
      exact second
    · rw [rows]
      exact blockLimit m
    · rw [columns]
      exact blockLimit n
    · intro limited
      have bound := @part_le k settings.kLimit.toNat (by omega)
      rw [inner, Settings.defaultKSplit_count limited, ← Int.ofNat_fdiv]
      have whole : ((settings.kLimit.toNat : Nat) : Int) = settings.kLimit :=
        Int.toNat_of_nonneg (by omega)
      rw [← whole]
      exact_mod_cast bound

theorem default_splits_positive {settings : Settings} (unset : settings.Unset) (m k n : Nat) :
    0 < (settings.splits m k n).m ∧ 0 < (settings.splits m k n).k ∧
      0 < (settings.splits m k n).n := by
  have inner : 0 < settings.defaultKSplit k := by
    unfold Settings.defaultKSplit
    split
    · exact lt_of_lt_of_le Int.zero_lt_one (le_max_left _ _)
    · decide
  have default (size : Nat) : 0 < Settings.defaultSplit size :=
    lt_of_lt_of_le Int.zero_lt_one (le_max_left _ _)
  simp only [Settings.splits, unset.m, unset.k, unset.n, Option.getD_none]
  exact ⟨default m, inner, default n⟩

theorem blockSize_quotient {size : Nat} {split : Int} (positive : 0 < split) :
    blockSize size split = some (size / split.toNat) := by
  have whole : ((split.toNat : Nat) : Int) = split := Int.toNat_of_nonneg (by omega)
  rw [blockSize, if_pos positive, ← whole, ← Int.ofNat_fdiv, Int.toNat_natCast]
  rfl

theorem prepareMatmul_blocks {settings : Settings} (unset : settings.Unset) {m k n : Nat}
    (aligned : 4 ∣ m ∧ 4 ∣ k ∧ 4 ∣ n) (tiled : settings.tiled m k n = true) (s : State)
    (useStaticWeights : Bool) (outcome : BuildOutcome) :
    let blocks := (settings.splits m k n).toSplits
    s.prepareMatmul settings m k n useStaticWeights outcome =
      s.prepareGraph (m / blocks.m) (k / blocks.k) (n / blocks.n) useStaticWeights outcome := by
  obtain ⟨rows, inner, columns⟩ := aligned
  obtain ⟨first, second, third⟩ := default_splits_positive unset m k n
  have same {size : Nat} (multiple : 4 ∣ size) : padded size = size := by
    unfold padded
    omega
  simp only [State.prepareMatmul, same rows, same inner, same columns, tiled, if_true,
    blockSize_quotient first, blockSize_quotient second, blockSize_quotient third,
    PySplits.toSplits]
  rfl

-- The default splits tile the matrices just when the ceilings divide the dimensions.
theorem default_splits_iff {settings : Settings} (unset : settings.Unset) {m k n : Nat}
    (aligned : 4 ∣ m ∧ 4 ∣ k ∧ 4 ∣ n) {splits : PySplits}
    (selected : settings.select m k n = some (.matmulTiled splits)) :
    (TilesExactly settings m k n splits ↔
        m ⌈/⌉ 1024 ∣ m ∧ n ⌈/⌉ 1024 ∣ n ∧
          (0 < settings.kLimit → k ⌈/⌉ settings.kLimit.toNat ∣ k)) ∧
      ∀ (s : State) (useStaticWeights : Bool) (outcome : BuildOutcome),
        s.prepareMatmul settings m k n useStaticWeights outcome =
          s.prepareGraph (m / splits.toSplits.m) (k / splits.toSplits.k) (n / splits.toSplits.n)
            useStaticWeights outcome := by
  obtain ⟨tiled, rfl⟩ := select_splits selected
  exact ⟨tilesExactly_iff unset m k n, prepareMatmul_blocks unset aligned tiled⟩

def untouched : Settings :=
  { kLimit := 0, globalMSplit := none, globalKSplit := none, globalNSplit := none,
    defaultBackendChoice := 1, verbose := false }

theorem default_splits_2048 :
    (TilesExactly untouched 2048 4 4 { m := 2, k := 1, n := 1 } ↔
        2048 ⌈/⌉ 1024 ∣ 2048 ∧ 4 ⌈/⌉ 1024 ∣ 4 ∧
          (0 < untouched.kLimit → 4 ⌈/⌉ untouched.kLimit.toNat ∣ 4)) ∧
      ∀ (s : State) (useStaticWeights : Bool) (outcome : BuildOutcome),
        s.prepareMatmul untouched 2048 4 4 useStaticWeights outcome =
          s.prepareGraph (2048 / 2) (4 / 1) (4 / 1) useStaticWeights outcome :=
  default_splits_iff ⟨rfl, rfl, rfl⟩ (by decide) (by decide)

-- 2056 rows are cut into 3 blocks of 685, and the last row is in none.
theorem default_splits_2056 :
    untouched.select 2056 4 4 = some (.matmulTiled { m := 3, k := 1, n := 1 }) ∧
      ¬ TilesExactly untouched 2056 4 4 { m := 3, k := 1, n := 1 } := by
  constructor
  · decide
  · intro tiles
    have whole := tiles.rows.whole
    revert whole
    decide

end NpuMatmul
