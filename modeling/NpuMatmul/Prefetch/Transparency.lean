import NpuMatmul.Prefetch.Fallback
import NpuMatmul.Shared.Runs

set_option autoImplicit false

namespace NpuMatmul

open Loop

section Column

variable {K N : Nat}

theorem columnShape_numBlocks (positive : 0 < K) : (columnShape K N).numBlocks = 1 := by
  change (K + K - 1) / K = 1
  apply Nat.div_eq_of_lt_le <;> omega

@[simp] theorem columnShape_blockFlatIdx (c : Nat) : (columnShape K N).blockFlatIdx c 0 = c := by
  simp [columnShape, BlockShape.blockFlatIdx]

@[simp] theorem columnShape_element (c k : Nat) :
    (columnShape K N).element c 0 k = k * N + c := by
  simp [columnShape, BlockShape.element, BlockShape.flatIndex, BlockShape.start]

theorem columnShape_count : (columnShape K N).count 0 = K := by
  simp [columnShape, BlockShape.count, BlockShape.stop, BlockShape.start, BlockShape.laneLength]

end Column

section Quantised

variable {F : Type} (fp : FloatArith F) {K N : Nat}

structure SameBlock (K N : Nat) (left right : FixedPointBlock 16 F) : Prop where
  mantissa : ∀ i < K * N, left.mantissa i = right.mantissa i
  exponents : ∀ j < N, left.exponents j = right.exponents j
  means : ∀ j < N, left.means j = right.means j
  precisions : ∀ j < N, left.precisions j = right.precisions j

theorem sameBlock_of_encoded {values : Nat → F} {left right : FixedPointBlock 16 F}
    (first : ∀ c < N, EncodedAt fp left.toBlockArrays (columnShape K N) values c 0 0 8)
    (second : ∀ c < N, EncodedAt fp right.toBlockArrays (columnShape K N) values c 0 0 8) :
    SameBlock K N left right := by
  constructor
  · intro i below
    obtain ⟨row, inside, split⟩ := rowMajor_split below
    have place : (columnShape K N).element (i % N) 0 (i / N) = i := by
      rw [columnShape_element, split]
    have within : i / N < (columnShape K N).count 0 := by rwa [columnShape_count]
    rw [← place, (first _ inside).mantissa _ within, (second _ inside).mantissa _ within]
  · intro c inside
    rw [← columnShape_blockFlatIdx (K := K) (N := N) c, (first c inside).exponent,
      (second c inside).exponent]
  · intro c inside
    rw [← columnShape_blockFlatIdx (K := K) (N := N) c, (first c inside).mean,
      (second c inside).mean]
  · intro c inside
    rw [← columnShape_blockFlatIdx (K := K) (N := N) c, (first c inside).precision,
      (second c inside).precision]

theorem sameBlock_of_read (positive : 0 < K) (arrays memory : BlockArrays 16 F)
    {fitted rounded values : Nat → F}
    (fittedSame : ∀ i < K * N, fitted i = values i)
    (roundedSame : ∀ i < K * N, rounded i = values i) :
    SameBlock K N
      (((FixedPointBlock.create arrays K N K false).fitExponent fp fitted).floatsToMantissa fp
        (encodeEight fp rounded))
      (encoded fp memory (columnShape K N) values 0 8) := by
  have one : 0 < (columnShape K N).numBlocks := by
    rw [columnShape_numBlocks positive]
    exact Nat.one_pos
  have reads {source : Nat → F} (same : ∀ i < K * N, source i = values i) {c : Nat}
      (inside : c < N) : ∀ k < (columnShape K N).count 0,
        source ((columnShape K N).element c 0 k) = values ((columnShape K N).element c 0 k) := by
    intro k below
    rw [columnShape_count] at below
    rw [columnShape_element]
    exact same _ (rowMajor_lt below inside)
  apply sameBlock_of_encoded fp
  · intro c inside
    exact passes_correct fp arrays (columnShape K N) 0 (by decide) inside one
      (reads fittedSame inside) (reads roundedSame inside)
  · intro c inside
    exact encoded_correct fp memory (columnShape K N) values 0 (by decide) inside one

end Quantised

section Tracked

variable {F : Type} (fp : FloatArith F)

-- A block is as far as its task has got with what the passes have read.
def WeightTask.Tracked (task : WeightTask F) : Prop :=
  ∃ arrays : BlockArrays 16 F,
    let created := FixedPointBlock.create arrays task.rows task.cols task.rows false
    match task.stage with
    | .construct | .fitExponent => task.block = created
    | .floatsToMantissa => task.block = created.fitExponent fp task.fitted
    | .push =>
        task.block = (created.fitExponent fp task.fitted).floatsToMantissa fp
          (encodeEight fp task.rounded)

def PrefetchedBlock.Tracked (entry : PrefetchedBlock F) : Prop :=
  ∃ arrays : BlockArrays 16 F,
    entry.block =
      ((FixedPointBlock.create arrays entry.block.rows entry.block.cols entry.block.rows
        false).fitExponent fp entry.fitted).floatsToMantissa fp (encodeEight fp entry.rounded)

structure PrefetchState.Tracked (s : PrefetchState F) : Prop where
  tasks : ∀ task ∈ s.tasks, task.Tracked fp
  queue : ∀ entry ∈ s.prefetchQueue.queue, entry.Tracked fp

variable {fp}

theorem WeightTask.Tracked.advance {task : WeightTask F} (tracked : task.Tracked fp)
    (memory : Nat → F) : (task.advance fp memory).Tracked fp := by
  obtain ⟨arrays, built⟩ := tracked
  refine ⟨arrays, ?_⟩
  unfold WeightTask.advance
  cases stage : task.stage <;> simp_all

theorem WeightTask.Tracked.pushed {task : WeightTask F} (tracked : task.Tracked fp)
    (stage : task.stage = .push) : task.toPrefetchedBlock.Tracked fp := by
  obtain ⟨arrays, built⟩ := tracked
  simp only [stage] at built
  have rows : task.block.rows = task.rows := by rw [built]; rfl
  have cols : task.block.cols = task.cols := by rw [built]; rfl
  refine ⟨arrays, ?_⟩
  rw [rows, cols]
  exact built

theorem PrefetchState.Tracked.pop {s : PrefetchState F} (tracked : s.Tracked fp)
    (memory : Nat → F) :
    PrefetchState.Tracked fp
      { s with memory := memory, prefetchQueue := s.prefetchQueue.pop.2 } := by
  refine ⟨tracked.tasks, fun entry member => tracked.queue entry ?_⟩
  unfold PrefetchQueue.pop at member
  split at member
  · exact member
  case h_2 queue =>
    rw [queue]
    exact List.mem_cons_of_mem _ member

theorem PrefetchState.Tracked.step {s next : PrefetchState F} {action : PrefetchAction F}
    (tracked : s.Tracked fp) (moved : s.step fp action = some next) : next.Tracked fp := by
  cases action with
  | prefetchWeights weightPtrs rows cols arrays =>
      cases moved
      refine ⟨fun task member => ?_, tracked.queue⟩
      obtain old | new := List.mem_append.mp member
      · exact tracked.tasks task old
      · obtain ⟨i, below, rfl⟩ := List.mem_mapIdx.mp new
        exact ⟨arrays i, rfl⟩
  | runTask index =>
      simp only [PrefetchState.step, PrefetchState.runTask] at moved
      split at moved
      · cases moved
      case h_2 task found =>
        have member := List.mem_of_getElem? found
        split at moved
        · cases moved
        · split at moved
          case isTrue last =>
            cases moved
            refine ⟨fun other inside => tracked.tasks other (List.mem_of_mem_eraseIdx inside), ?_⟩
            intro entry inside
            obtain old | new := List.mem_append.mp inside
            · exact tracked.queue entry old
            · rw [List.mem_singleton.mp new]
              exact (tracked.tasks task member).pushed last
          case isFalse =>
            cases moved
            refine ⟨fun other inside => ?_, tracked.queue⟩
            obtain old | rfl := List.mem_or_eq_of_mem_set inside
            · exact tracked.tasks other old
            · exact (tracked.tasks task member).advance s.memory
  | write address value =>
      cases moved
      exact ⟨tracked.tasks, tracked.queue⟩
  | matmul call =>
      simp only [PrefetchState.step, PrefetchState.matmulInt8] at moved
      split at moved
      · cases moved
        exact tracked
      · split at moved
        · cases moved
          unfold PrefetchState.matmulInt8Floats
          split
          · exact tracked
          · exact ⟨tracked.tasks, tracked.queue⟩
        · split at moved <;> cases moved
          unfold PrefetchState.matmulInt8Quantised
          dsimp only
          split
          · exact tracked.pop s.memory
          · exact tracked.pop _

end Tracked

section Transparent

variable {F : Type} (fp : FloatArith F)

def FallbackCall.Quantises (call : FallbackCall F) : Prop :=
  call.interpreter = true ∧ call.backendChoice ≠ 3 ∧ 0 < call.K

def OperandQuantised (s : PrefetchState F) : PrefetchAction F → Prop
  | .matmul call => call.Quantises → ∀ memory : BlockArrays 16 F,
      SameBlock call.K call.N (s.rightOperand fp call)
        (encoded fp memory (columnShape call.K call.N) (fun i => s.memory (call.B + i)) 0 8)
  | _ => True

-- If the block in front has the shape of B, both passes over it have read what B holds now.
def FrontCurrent (s : PrefetchState F) : PrefetchAction F → Prop
  | .matmul call => call.Quantises → ∀ front rest, s.prefetchQueue.queue = front :: rest →
      front.block.rows = call.K → front.block.cols = call.N →
        ∀ i < call.K * call.N, front.fitted i = s.memory (call.B + i) ∧
          front.rounded i = s.memory (call.B + i)
  | _ => True

def PrefetchAction.isPrefetch : PrefetchAction F → Bool
  | .prefetchWeights .. | .runTask _ => true
  | .write .. | .matmul _ => false

def withoutPrefetch (actions : List (PrefetchAction F)) : List (PrefetchAction F) :=
  actions.filter fun action => !action.isPrefetch

variable {fp} {s next last : PrefetchState F}

theorem freshOperand_quantised (s : PrefetchState F) (call : FallbackCall F) (positive : 0 < call.K)
    (memory : BlockArrays 16 F) : SameBlock call.K call.N (s.freshOperand fp call)
      (encoded fp memory (columnShape call.K call.N) (fun i => s.memory (call.B + i)) 0 8) :=
  sameBlock_of_read fp positive call.arraysB memory (fun _ _ => rfl) fun _ _ => rfl

theorem rightOperand_quantised (tracked : s.Tracked fp) {call : FallbackCall F}
    (quantises : call.Quantises) (current : FrontCurrent s (.matmul call))
    (memory : BlockArrays 16 F) :
    SameBlock call.K call.N (s.rightOperand fp call)
      (encoded fp memory (columnShape call.K call.N) (fun i => s.memory (call.B + i)) 0 8) := by
  have positive := quantises.2.2
  have fresh : SameBlock call.K call.N (s.freshOperand fp call) _ :=
    freshOperand_quantised s call positive memory
  unfold PrefetchState.rightOperand PrefetchQueue.pop
  cases queue : s.prefetchQueue.queue with
  | nil => exact fresh
  | cons front rest =>
      by_cases shape : front.block.rows = call.K ∧ front.block.cols = call.N
      · obtain ⟨rows, cols⟩ := shape
        obtain ⟨arrays, built⟩ := tracked.queue front (by rw [queue]; exact List.mem_cons_self)
        have read := current quantises front rest queue rows cols
        rw [rows, cols] at built
        simp only [rows, cols, and_self, if_true]
        rw [built]
        exact sameBlock_of_read fp positive arrays memory (fun i below => (read i below).1)
          fun i below => (read i below).2
      · simpa only [if_neg shape] using fresh

-- The run without prefetching has the same memory, and an empty queue.
structure Plain (s p : PrefetchState F) : Prop where
  memory : p.memory = s.memory
  queue : p.prefetchQueue.queue = []

theorem copied_congr {α : Type} {count : Nat} {left right : Nat → α}
    (same : ∀ i < count, left i = right i) : copied count left = copied count right := by
  apply List.map_congr_left
  intro i member
  exact same i (List.mem_range.mp member)

theorem writeBack_congr {memory : Nat → F} {C M N : Nat} {change other : Nat → Nat → F → F}
    (same : ∀ i < M, ∀ j < N, change i j = other i j) :
    writeBack memory C (updateCells M N N change) =
      writeBack memory C (updateCells M N N other) := by
  have cells : updateCells M N N change = updateCells M N N other := by
    funext result
    apply forLoop_congr
    intro i row below
    apply forLoop_congr
    intro j cell inside
    simp only [same i below j inside]
  rw [cells]

theorem plain_operand {p : PrefetchState F} (plain : Plain s p) (call : FallbackCall F) :
    p.rightOperand fp call = s.freshOperand fp call := by
  simp [PrefetchState.rightOperand, PrefetchQueue.pop, plain.queue, PrefetchState.freshOperand,
    plain.memory]

theorem matmulInt8_plain {p : PrefetchState F} (tracked : s.Tracked fp) (plain : Plain s p)
    {call : FallbackCall F} (current : FrontCurrent s (.matmul call))
    (moved : s.matmulInt8 fp call = some next) :
    ∃ q, p.matmulInt8 fp call = some q ∧ Plain next q := by
  unfold PrefetchState.matmulInt8 at moved ⊢
  by_cases missing : (!call.interpreter) = true
  · rw [if_pos missing] at moved ⊢
    cases moved
    exact ⟨p, rfl, plain⟩
  rw [if_neg missing] at moved ⊢
  by_cases floats : call.backendChoice = 3
  · rw [if_pos floats] at moved ⊢
    cases moved
    refine ⟨_, rfl, ?_⟩
    unfold PrefetchState.matmulInt8Floats
    rw [plain.memory]
    split
    · exact plain
    · exact ⟨rfl, plain.queue⟩
  rw [if_neg floats] at moved ⊢
  by_cases zero : call.K = 0
  · rw [if_pos zero] at moved
    cases moved
  rw [if_neg zero] at moved ⊢
  cases moved
  refine ⟨_, rfl, ?_⟩
  have positive : 0 < call.K := Nat.pos_of_ne_zero zero
  have quantises : call.Quantises := ⟨by simpa using missing, floats, positive⟩
  have same : SameBlock call.K call.N (s.rightOperand fp call) (p.rightOperand fp call) := by
    rw [plain_operand plain]
    exact rightOperand_quantised tracked quantises current call.arraysB
  have codes := copied_congr same.mantissa
  have none : p.prefetchQueue.pop.2.queue = [] := by simp [PrefetchQueue.pop, plain.queue]
  unfold PrefetchState.matmulInt8Quantised
  dsimp only
  rw [plain.memory, codes]
  split
  · exact ⟨rfl, none⟩
  case h_2 output answer =>
    refine ⟨?_, none⟩
    apply writeBack_congr
    intro i _ j inside
    funext _
    simp only [dequantizedFallback, same.exponents j inside, same.means j inside,
      same.precisions j inside]

theorem prefetch_plain {p : PrefetchState F} (plain : Plain s p) {action : PrefetchAction F}
    (prefetch : action.isPrefetch = true) (moved : s.step fp action = some next) :
    Plain next p := by
  cases action with
  | prefetchWeights weightPtrs rows cols arrays =>
      cases moved
      exact ⟨plain.memory, plain.queue⟩
  | runTask index =>
      simp only [PrefetchState.step, PrefetchState.runTask] at moved
      split at moved
      · cases moved
      · split at moved
        · cases moved
        · split at moved <;> cases moved <;> exact ⟨plain.memory, plain.queue⟩
  | write | matmul => cases prefetch

theorem other_plain {p : PrefetchState F} (tracked : s.Tracked fp) (plain : Plain s p)
    {action : PrefetchAction F} (other : action.isPrefetch = false)
    (current : FrontCurrent s action) (moved : s.step fp action = some next) :
    ∃ q, p.step fp action = some q ∧ Plain next q := by
  cases action with
  | prefetchWeights | runTask => cases other
  | write address value =>
      cases moved
      exact ⟨_, rfl, by simp only [plain.memory], plain.queue⟩
  | matmul call => exact matmulInt8_plain tracked plain current moved

theorem plain_run {p : PrefetchState F} (tracked : s.Tracked fp) (plain : Plain s p)
    {actions : List (PrefetchAction F)}
    (reached : Runs.after (PrefetchState.step fp) s actions = some last)
    (current : Runs.Along (PrefetchState.step fp) FrontCurrent s actions) :
    ∃ q, Runs.after (PrefetchState.step fp) p (withoutPrefetch actions) = some q ∧
      Plain last q := by
  apply Runs.after_filter (I := PrefetchState.Tracked fp) (R := Plain) _ _ _ tracked
    plain current reached
  · exact fun s action next tracked _ moved => tracked.step moved
  · exact fun s p action next plain prefetch moved => prefetch_plain plain (by simpa using prefetch)
      moved
  · exact fun s p action next tracked current plain other moved =>
      other_plain tracked plain (by simpa using other) current moved

theorem start_tracked (memory : Nat → F) : (PrefetchState.start memory).Tracked fp :=
  ⟨nofun, nofun⟩

theorem operands_quantised (tracked : s.Tracked fp) {actions : List (PrefetchAction F)}
    (current : Runs.Along (PrefetchState.step fp) FrontCurrent s actions) :
    Runs.Along (PrefetchState.step fp) (OperandQuantised fp) s actions := by
  apply Runs.along_mono (I := PrefetchState.Tracked fp) _ _ tracked current
  · exact fun s action next tracked _ moved => tracked.step moved
  · intro s action tracked here
    cases action with
    | matmul call => exact fun quantises => rightOperand_quantised tracked quantises here
    | prefetchWeights | runTask | write => trivial

end Transparent

-- While every block taken off the queue was made from what B holds at that call, each operand is
-- the quantisation of B, and the run without prefetching writes the same memory, each C included.
theorem prefetch_transparent {F : Type} (fp : FloatArith F) {memory : Nat → F}
    {actions : List (PrefetchAction F)} {last : PrefetchState F}
    (reached : Runs.after (PrefetchState.step fp) (.start memory) actions = some last)
    (current : Runs.Along (PrefetchState.step fp) FrontCurrent (.start memory) actions) :
    Runs.Along (PrefetchState.step fp) (OperandQuantised fp) (.start memory) actions ∧
      ∃ plain, Runs.after (PrefetchState.step fp) (.start memory) (withoutPrefetch actions) =
        some plain ∧ plain.memory = last.memory := by
  have tracked : (PrefetchState.start memory).Tracked fp := start_tracked memory
  obtain ⟨plain, ran, same⟩ := plain_run tracked ⟨rfl, rfl⟩ reached current
  exact ⟨operands_quantised tracked current, plain, ran, same.memory⟩

def oneByOne : FallbackCall ℚ :=
  { A := 0
    B := 10
    C := 20
    M := 1
    K := 1
    N := 1
    backendChoice := 0
    arraysA := default
    arraysB := default
    interpreter := true
    invoke := fun _ _ => some fun _ => 0
    invokeFloats := fun _ _ => none }

def prefetchOne : List (PrefetchAction ℚ) :=
  .prefetchWeights [10] [1] [1] (fun _ => default) :: List.replicate 4 (.runTask 0)

def onlyA : Nat → ℚ := fun address => if address = 0 then 1 else 0

theorem prefetch_transparent_unwritten :
    Runs.Along (PrefetchState.step (exact default)) (OperandQuantised (exact default))
        (.start onlyA) (prefetchOne ++ [.matmul oneByOne]) ∧
      ∃ plain, Runs.after (PrefetchState.step (exact default)) (.start onlyA)
        (withoutPrefetch (prefetchOne ++ [.matmul oneByOne])) = some plain ∧
          plain.memory 20 = 0 := by
  have reached : Runs.after (PrefetchState.step (exact default)) (.start onlyA)
      (prefetchOne ++ [.matmul oneByOne]) = some _ := rfl
  have current : Runs.Along (PrefetchState.step (exact default)) FrontCurrent (.start onlyA)
      (prefetchOne ++ [.matmul oneByOne]) := by
    iterate 5 refine ⟨trivial, ?_⟩; rintro _ ⟨⟩
    refine ⟨?_, fun _ _ => trivial⟩
    rintro - front rest ⟨⟩ - - i -
    exact ⟨rfl, rfl⟩
  obtain ⟨quantised, plain, ran, same⟩ := prefetch_transparent (exact default) reached current
  refine ⟨quantised, plain, ran, ?_⟩
  rw [same]
  decide +kernel

-- The float at B is written after its task has read it: the block has the shape asked for, and
-- the old mean.
theorem stale_block_used :
    ∃ last plain,
      Runs.after (PrefetchState.step (exact default)) (.start onlyA)
        (prefetchOne ++ [.write 10 1, .matmul oneByOne]) = some last ∧
      Runs.after (PrefetchState.step (exact default)) (.start onlyA)
        (withoutPrefetch (prefetchOne ++ [.write 10 1, .matmul oneByOne])) = some plain ∧
      last.memory 20 = 0 ∧ plain.memory 20 = 1 ∧
      ¬ Runs.Along (PrefetchState.step (exact default)) (OperandQuantised (exact default))
        (.start onlyA) (prefetchOne ++ [.write 10 1, .matmul oneByOne]) := by
  refine ⟨_, _, rfl, rfl, by decide +kernel, by decide +kernel, ?_⟩
  intro along
  have used := ((((((along.2 _ rfl).2 _ rfl).2 _ rfl).2 _ rfl).2 _ rfl).2 _ rfl).1
    ⟨rfl, by decide, by decide⟩ default
  have means := used.means 0 (by decide)
  revert means
  decide +kernel

end NpuMatmul
