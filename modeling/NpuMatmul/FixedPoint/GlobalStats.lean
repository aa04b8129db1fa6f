import Mathlib.Algebra.BigOperators.Ring.Finset
import NpuMatmul.FixedPoint.BlockExact
import NpuMatmul.FixedPoint.WriteCounts

set_option autoImplicit false

namespace NpuMatmul

open LoopNest Loop

-- What fit_exponent adds up over all blocks, into copies of each thread of the omp loop that the
-- reduction adds to each other in the end.
structure GlobalSums (F : Type) where
  globalSum : F
  globalSumSquares : F
  globalN : Nat

section Code

variable {F : Type} (fp : FloatArith F)

def GlobalSums.zero : GlobalSums F :=
  { globalSum := zeroFloat fp, globalSumSquares := zeroFloat fp, globalN := 0 }

def GlobalSums.scan (sums : GlobalSums F) (val : F) : GlobalSums F :=
  { globalSum := fp.add sums.globalSum val
    globalSumSquares := fp.add sums.globalSumSquares (fp.mul val val)
    globalN := sums.globalN + 1 }

def GlobalSums.reduce (total copy : GlobalSums F) : GlobalSums F :=
  { globalSum := fp.add total.globalSum copy.globalSum
    globalSumSquares := fp.add total.globalSumSquares copy.globalSumSquares
    globalN := total.globalN + copy.globalN }

def laneSums (shape : BlockShape) (values : Nat → F) (lane : Nat) (sums : GlobalSums F) :
    GlobalSums F :=
  forLoop shape.numBlocks (fun block => forLoop (shape.count block) fun offset sums =>
    sums.scan fp (values (shape.element lane block offset))) sums

def globalSums (shape : BlockShape) (values : Nat → F) (threads : List (List Nat)) :
    GlobalSums F :=
  (threads.map fun lanes =>
    lanes.foldl (fun sums lane => laneSums fp shape values lane sums) (.zero fp)).foldl
      (GlobalSums.reduce fp) (.zero fp)

def GlobalSums.mean (sums : GlobalSums F) : F :=
  if 0 < sums.globalN then fp.div sums.globalSum (fp.ofInt sums.globalN) else zeroFloat fp

def GlobalSums.stdDev (sums : GlobalSums F) : F :=
  if 0 < sums.globalN then
    let mean := sums.mean fp
    let globalVariance :=
      fp.sub (fp.div sums.globalSumSquares (fp.ofInt sums.globalN)) (fp.mul mean mean)
    fp.sqrt (fp.max (zeroFloat fp) globalVariance)
  else zeroFloat fp

end Code

def laneElements (shape : BlockShape) (lane : Nat) : List Nat :=
  loop shape.numBlocks fun block => (List.range (shape.count block)).map (shape.element lane block)

section Scanned

variable {F : Type} (fp : FloatArith F)

theorem scan_loop (n : Nat) (values : Nat → F) (sums : GlobalSums F) :
    forLoop n (fun i sums => sums.scan fp (values i)) sums =
      ((List.range n).map values).foldl (GlobalSums.scan fp) sums := by
  induction n with
  | zero => rfl
  | succ n ih => simp [List.range_succ, ih]

theorem laneSums_scanned (shape : BlockShape) (values : Nat → F) (lane : Nat)
    (sums : GlobalSums F) :
    laneSums fp shape values lane sums =
      ((laneElements shape lane).map values).foldl (GlobalSums.scan fp) sums := by
  unfold laneSums laneElements
  induction shape.numBlocks with
  | zero => rfl
  | succ n ih =>
      rw [forLoop_succ, ih, scan_loop]
      simp [loop, List.range_succ, List.foldl_append, Function.comp_def]

theorem threadSums_scanned (shape : BlockShape) (values : Nat → F) (lanes : List Nat)
    (sums : GlobalSums F) :
    lanes.foldl (fun sums lane => laneSums fp shape values lane sums) sums =
      ((lanes.flatMap (laneElements shape)).map values).foldl (GlobalSums.scan fp) sums := by
  induction lanes generalizing sums with
  | nil => rfl
  | cons lane later ih =>
      rw [List.foldl_cons, ih, laneSums_scanned]
      simp [List.foldl_append]

end Scanned

section Exact

variable (host : Unspecified)

def exactSums (scanned : List ℚ) : GlobalSums ℚ :=
  { globalSum := scanned.sum
    globalSumSquares := (scanned.map fun x => x * x).sum
    globalN := scanned.length }

theorem scan_exact (before scanned : List ℚ) :
    scanned.foldl (GlobalSums.scan (exact host)) (exactSums before) =
      exactSums (before ++ scanned) := by
  induction scanned generalizing before with
  | nil => simp
  | cons x later ih =>
      have next :
          GlobalSums.scan (exact host) (exactSums before) x = exactSums (before ++ [x]) := by
        simp [GlobalSums.scan, exactSums]
      rw [List.foldl_cons, next, ih]
      simp

theorem zero_exact : GlobalSums.zero (exact host) = exactSums [] := by
  simp [GlobalSums.zero, exactSums, zeroFloat_exact]

theorem reduce_exact (first second : List ℚ) :
    GlobalSums.reduce (exact host) (exactSums first) (exactSums second) =
      exactSums (first ++ second) := by
  simp [GlobalSums.reduce, exactSums]

theorem reduced_exact (before : List ℚ) (copies : List (List ℚ)) :
    (copies.map exactSums).foldl (GlobalSums.reduce (exact host)) (exactSums before) =
      exactSums (before ++ copies.flatten) := by
  induction copies generalizing before with
  | nil => simp
  | cons copy later ih =>
      rw [List.map_cons, List.foldl_cons, reduce_exact, ih]
      simp

theorem globalSums_exact (shape : BlockShape) (values : Nat → ℚ) (threads : List (List Nat)) :
    globalSums (exact host) shape values threads =
      exactSums ((threads.flatten.flatMap (laneElements shape)).map values) := by
  have copies : (threads.map fun lanes => lanes.foldl
      (fun sums lane => laneSums (exact host) shape values lane sums) (.zero (exact host))) =
      (threads.map fun lanes => (lanes.flatMap (laneElements shape)).map values).map exactSums := by
    rw [List.map_map]
    refine List.map_congr_left fun lanes _ => ?_
    rw [threadSums_scanned, zero_exact, scan_exact]
    rfl
  have joined : (threads.map fun lanes => (lanes.flatMap (laneElements shape)).map values).flatten =
      (threads.flatten.flatMap (laneElements shape)).map values := by
    induction threads with
    | nil => rfl
    | cons lanes later ih => simp_all
  rw [globalSums, copies, zero_exact, reduced_exact, joined]
  rfl

theorem exactSums_perm {first second : List ℚ} (perm : first.Perm second) :
    exactSums first = exactSums second := by
  simp only [exactSums, perm.sum_eq, (perm.map _).sum_eq, perm.length_eq]

theorem globalSums_all {shape : BlockShape} (positive : 0 < shape.blockSize) (values : Nat → ℚ)
    {threads : List (List Nat)} (shared : threads.flatten.Perm (List.range shape.lanes)) :
    globalSums (exact host) shape values threads =
      exactSums ((List.range (shape.rows * shape.cols)).map values) := by
  rw [globalSums_exact]
  apply exactSums_perm
  apply List.Perm.map
  exact (shared.flatMap_right (laneElements shape)).trans (BlockShape.elementPass_perm positive)

end Exact

section Average

variable {n : Nat} (values : Nat → ℚ)

theorem sum_range_list : ((List.range n).map values).sum = ∑ i ∈ Finset.range n, values i := by
  rw [Finset.sum_eq_multiset_sum]
  rfl

theorem average_distance (positive : 0 < n) :
    (average n fun i => (values i - average n values) ^ 2) =
      (∑ i ∈ Finset.range n, values i * values i) / n - average n values * average n values := by
  have size : (n : ℚ) ≠ 0 := by exact_mod_cast positive.ne'
  have total : ∑ i ∈ Finset.range n, values i = n * average n values := by
    rw [average]
    field_simp
  have expanded : ∑ i ∈ Finset.range n, (values i - average n values) ^ 2 =
      ∑ i ∈ Finset.range n, values i * values i - n * (average n values * average n values) := by
    calc ∑ i ∈ Finset.range n, (values i - average n values) ^ 2
        = ∑ i ∈ Finset.range n, (values i * values i - 2 * average n values * values i +
            average n values * average n values) := by
          refine Finset.sum_congr rfl fun i _ => ?_
          ring
      _ = ∑ i ∈ Finset.range n, values i * values i -
            2 * average n values * ∑ i ∈ Finset.range n, values i +
            n * (average n values * average n values) := by
          rw [Finset.sum_add_distrib, Finset.sum_sub_distrib, ← Finset.mul_sum]
          simp
      _ = _ := by
          rw [total]
          ring
  rw [average, expanded]
  field_simp

theorem average_distance_nonneg : 0 ≤ average n fun i => (values i - average n values) ^ 2 := by
  apply div_nonneg (Finset.sum_nonneg fun i _ => sq_nonneg _)
  exact Nat.cast_nonneg n

end Average

section Correct

variable (host : Unspecified) {shape : BlockShape} (values : Nat → ℚ)

theorem sum_loop (n : Nat) (body : Nat → List Nat) :
    ((loop n body).map values).sum = ∑ i ∈ Finset.range n, ((body i).map values).sum := by
  induction n with
  | zero => rfl
  | succ n ih =>
      rw [Finset.sum_range_succ, ← ih]
      simp [loop, List.range_succ]

theorem sum_blocks (positive : 0 < shape.blockSize) :
    ∑ lane ∈ Finset.range shape.lanes, ∑ block ∈ Finset.range shape.numBlocks,
        ∑ offset ∈ Finset.range (shape.count block), values (shape.element lane block offset) =
      ∑ i ∈ Finset.range (shape.rows * shape.cols), values i := by
  have passed : (shape.elementPass.map values).sum =
      ((List.range (shape.rows * shape.cols)).map values).sum :=
    ((BlockShape.elementPass_perm positive).map values).sum_eq
  rw [sum_range_list] at passed
  rw [← passed, BlockShape.elementPass, nest, sum_loop]
  refine Finset.sum_congr rfl fun lane _ => ?_
  rw [sum_loop]
  refine Finset.sum_congr rfl fun block _ => ?_
  rw [List.map_map]
  exact (sum_range_list (values ∘ shape.element lane block)).symm

theorem count_average (n : Nat) : n * average n values = ∑ i ∈ Finset.range n, values i := by
  unfold average
  rcases Nat.eq_zero_or_pos n with rfl | positive
  · simp
  · have size : (n : ℚ) ≠ 0 := by exact_mod_cast positive.ne'
    field_simp

theorem mean_exact (n : Nat) :
    (exactSums ((List.range n).map values)).mean (exact host) = average n values := by
  unfold GlobalSums.mean average exactSums
  rcases Nat.eq_zero_or_pos n with rfl | positive
  · simp [zeroFloat_exact]
  · simp [positive, sum_range_list]

theorem stdDev_exact {n : Nat} (positive : 0 < n) :
    (exactSums ((List.range n).map values)).stdDev (exact host) =
      host.sqrt (average n fun i => (values i - average n values) ^ 2) := by
  have counted : 0 < (exactSums ((List.range n).map values)).globalN := by
    simpa [exactSums] using positive
  have nonneg := average_distance_nonneg (n := n) values
  rw [GlobalSums.stdDev, if_pos counted, mean_exact]
  rw [average_distance values positive] at nonneg ⊢
  simp only [exactSums, exact_sub, exact_div, exact_mul, exact_ofInt, zeroFloat_exact, List.map_map,
    List.length_map, List.length_range, sum_range_list, Function.comp_def, Int.cast_natCast]
  exact congrArg host.sqrt (max_eq_right nonneg)

-- The mean and the deviation that fit_exponent gives a matrix are those of all its elements,
-- whatever the blocks are and however the omp loop shares out the lanes and adds up.
theorem globalStats_correct {width : Nat} (positive : 0 < shape.blockSize)
    (arrays : BlockArrays width ℚ) {threads : List (List Nat)}
    (shared : threads.flatten.Perm (List.range shape.lanes)) :
    let n := shape.rows * shape.cols
    let sums := globalSums (exact host) shape values threads
    let fitted := ({ toBlockShape := shape, toBlockArrays := arrays } :
      FixedPointBlock width ℚ).fitExponent (exact host) values
    sums.mean (exact host) = average n values ∧
      (0 < n → sums.stdDev (exact host) =
        host.sqrt (average n fun i => (values i - average n values) ^ 2)) ∧
      n * sums.mean (exact host) =
        ∑ lane ∈ Finset.range shape.lanes, ∑ block ∈ Finset.range shape.numBlocks,
          shape.count block * fitted.means (shape.blockFlatIdx lane block) := by
  intro n sums fitted
  have all : sums = exactSums ((List.range n).map values) :=
    globalSums_all host positive values shared
  rw [all, mean_exact]
  refine ⟨rfl, stdDev_exact host values, ?_⟩
  rw [count_average, ← sum_blocks values positive]
  refine Finset.sum_congr rfl fun lane below => Finset.sum_congr rfl fun block inside => ?_
  have mean := (fitExponent_correct (exact host) { toBlockShape := shape, toBlockArrays := arrays }
    values lane (Finset.mem_range.mp below) block (Finset.mem_range.mp inside)).2.1
  rw [mean, blockStats_mean, count_average]

-- Three rows of two in blocks of one, on two threads of which the second one is added first.
theorem globalStats_correct_threads :
    ((globalSums (exact default)
        { rows := 3, cols := 2, blockSize := 1, blockColumns := true } (fun i => (i : ℚ))
        [[2], [0, 1]]).mean (exact default)) =
      average (3 * 2) fun i => (i : ℚ) :=
  (globalStats_correct default (fun i => (i : ℚ)) Nat.one_pos
    (default : BlockArrays 8 ℚ) (by decide : [[2], [0, 1]].flatten.Perm (List.range 3))).1

end Correct

end NpuMatmul
