import NpuMatmul.Memory.KernelBalance

set_option autoImplicit false

namespace NpuMatmul

open Completion Scratchpad

namespace KernelMemory

-- The blocks in the queue own buffers that are live, each its own.
def QueueOwned (s : KernelMemory) : Prop :=
  blocksHeld (s.prefetchQueue.queue : Multiset OwnedBlock) ≤ s.live

-- The allocations are what they were, without those of the popped block and with those of the new
-- model, and every block constructed or popped was destroyed once.
structure Balanced (s t : KernelMemory) : Prop where
  live : t.live = s.live - blocksHeld t.popped + modelsHeld t.added
  destroyed : t.destroyed = t.created + t.popped

structure Clear (s : KernelMemory) : Prop where
  created : s.created = 0
  popped : s.popped = 0
  destroyed : s.destroyed = 0
  added : s.added = 0

structure Ends (s t : KernelMemory) (reused : Bool) : Prop where
  balanced : reused = false → Balanced s t
  leaves : reused = true → t.popped ≠ 0 ∧ t.destroyed = t.created
  owned : t.QueueOwned

structure Fetched (s t : KernelMemory) (fetched : Multiset OwnedModel) : Prop where
  live : t.live = modelsHeld fetched + s.live
  added : t.added = fetched + s.added
  created : t.created = s.created
  destroyed : t.destroyed = s.destroyed
  popped : t.popped = s.popped
  prefetchQueue : t.prefetchQueue = s.prefetchQueue

def hasInterpreter (s : KernelMemory) (M K N backendChoice : Int) (outcome : KernelOutcome) :
    Bool :=
  match s.findModel M K N backendChoice with
  | some model => model.interpreter
  | none => outcome.interpreter

section Calls

variable {s t u : KernelMemory} {M K N backendChoice : Int} {outcome : KernelOutcome}

theorem Ends.of_reached {blocks : Multiset OwnedBlock} (clear : s.Clear) (owned : s.QueueOwned)
    (reached : Reached s t s.live blocks blocks) : Ends s t false := by
  have popped : t.popped = 0 := by rw [reached.popped, clear.popped]
  have added : t.added = 0 := by rw [reached.added, clear.added]
  constructor
  · intro _
    constructor
    · simp [reached.live, popped, added, blocksHeld, modelsHeld]
    · simp [reached.created, reached.destroyed, popped, clear.created, clear.destroyed]
  · intro same
    cases same
  · rw [QueueOwned, reached.prefetchQueue, reached.live]
    exact owned

theorem createModel_completes (s : KernelMemory) (M K N backendChoice : Int)
    (outcome : KernelOutcome) :
    Completes (createModel M K N backendChoice outcome) s fun model t =>
      model.interpreter = outcome.interpreter ∧ Reached s t (model.buffers + s.live) 0 0 := by
  rw [createModel]
  split
  next present =>
    apply (alloc_completes (reached_here s) _).bind
    intro persistA _ reached
    apply (alloc_completes reached _).bind
    intro persistB _ reached
    apply (alloc_completes reached _).bind
    intro persistOut _ reached
    refine .pure ⟨present.symm, reached.rearrange _ ?_⟩
    simp only [OwnedModel.buffers]
    abel
  next absent =>
    refine .pure ⟨(Bool.eq_false_iff.mpr absent).symm, (reached_here s).rearrange _ ?_⟩
    simp [OwnedModel.buffers, held]

theorem fetchModel_completes (s : KernelMemory) (M K N backendChoice : Int)
    (outcome : KernelOutcome) :
    Completes (fetchModel M K N backendChoice outcome) s fun model t =>
      model.interpreter = s.hasInterpreter M K N backendChoice outcome ∧
        ∃ fetched, Fetched s t fetched := by
  have state : Completes get s fun value t => s = value ∧ s = t := ⟨s, s, rfl, rfl, rfl⟩
  apply state.bind
  rintro _ _ ⟨rfl, rfl⟩
  cases found : s.findModel M K N backendChoice with
  | some model =>
      refine .pure ⟨by simp [hasInterpreter, found], 0, ?_⟩
      constructor <;> simp [modelsHeld]
  | none =>
      apply (createModel_completes s M K N backendChoice outcome).bind
      rintro model u ⟨interpreter, reached⟩
      refine ⟨model, _, rfl, by simp [hasInterpreter, found, interpreter], {model}, ?_⟩
      constructor
      · simp [modelsHeld, reached.live]
      · simp [reached.added]
      · simp [reached.created]
      · simp [reached.destroyed]
      · simp [reached.popped]
      · simp [reached.prefetchQueue]

theorem queue_front (s : KernelMemory) :
    blocksHeld (s.prefetchQueue.queue : Multiset OwnedBlock) =
      blocksHeld s.frontBlocks +
        blocksHeld (s.afterPop.prefetchQueue.queue : Multiset OwnedBlock) := by
  cases waiting : s.prefetchQueue.queue with
  | nil => simp [frontBlocks, afterPop, waiting, blocksHeld]
  | cons block others =>
      simp [frontBlocks, afterPop, waiting, blocksHeld, ← Multiset.cons_coe]

theorem frontBlocks_of_matches (matching : s.frontMatches K N = true) : s.frontBlocks ≠ 0 := by
  cases waiting : s.prefetchQueue.queue with
  | nil => simp [frontMatches, waiting] at matching
  | cons block others => simp [frontBlocks, waiting]

theorem frontMatches_congr (same : t.prefetchQueue = s.prefetchQueue) :
    t.frontMatches K N = s.frontMatches K N := by
  simp [frontMatches, same]

theorem int8Fallback_ends {fetched : Multiset OwnedModel} (clear : s.Clear)
    (owned : s.QueueOwned) (found : Fetched s u fetched) (M : Int) (outcome : KernelOutcome)
    (inner : K ≠ 0) :
    Completes (int8Fallback M K N outcome) u fun _ t => Ends s t (s.frontMatches K N) := by
  have front : u.frontBlocks = s.frontBlocks := by simp [frontBlocks, found.prefetchQueue]
  have tail : u.afterPop.prefetchQueue = s.afterPop.prefetchQueue := by
    simp [afterPop, found.prefetchQueue]
  have popped : u.afterPop.popped = s.frontBlocks := by
    simp [afterPop, front, found.popped, clear.popped]
  have added : u.added = fetched := by simp [found.added, clear.added]
  have created : u.created = 0 := by rw [found.created, clear.created]
  have destroyed : u.destroyed = 0 := by rw [found.destroyed, clear.destroyed]
  rw [QueueOwned, queue_front] at owned
  cases matching : s.frontMatches K N with
  | true =>
      apply (int8Fallback_matching u M outcome inner (by
        rw [frontMatches_congr found.prefetchQueue, matching])).mono
      rintro _ t ⟨blocks, reached⟩
      constructor
      · intro same
        cases same
      · intro _
        rw [reached.popped, popped, reached.created, reached.destroyed]
        exact ⟨frontBlocks_of_matches matching, by simp [afterPop, created, destroyed]⟩
      · rw [QueueOwned, reached.prefetchQueue, tail, reached.live, found.live]
        exact ((Multiset.le_add_left _ _).trans owned).trans (Multiset.le_add_left _ _)
  | false =>
      obtain ⟨others, live⟩ := Multiset.le_iff_exists_add.mp owned
      have split : u.live = blocksHeld u.frontBlocks + (modelsHeld fetched +
          (blocksHeld (s.afterPop.prefetchQueue.queue : Multiset OwnedBlock) + others)) := by
        rw [found.live, live, front]
        abel
      apply (int8Fallback_other M outcome inner (by
        rw [frontMatches_congr found.prefetchQueue, matching]) split).mono
      rintro _ t ⟨blocks, reached⟩
      constructor
      · intro _
        constructor
        · rw [reached.live, reached.popped, popped, reached.added, live, add_assoc,
            add_tsub_cancel_left, add_comm]
          simp [afterPop, added]
        · rw [reached.created, reached.destroyed, reached.popped, popped, front]
          simp [afterPop, created, destroyed]
      · intro same
        cases same
      · rw [QueueOwned, reached.prefetchQueue, tail, reached.live]
        exact (Multiset.le_add_right _ _).trans (Multiset.le_add_left _ _)

def Int8Quantises (s : KernelMemory) (M K N backendChoice : Int) (outcome : KernelOutcome) : Prop :=
  if outcome.loaded then outcome.graphValid = true
  else s.hasInterpreter M K N backendChoice outcome = true ∧ backendChoice ≠ 3

-- The block popped from the queue is the right operand of the fallback.
def Int8Reuses (s : KernelMemory) (M K N backendChoice : Int) (outcome : KernelOutcome) : Bool :=
  !outcome.loaded && s.hasInterpreter M K N backendChoice outcome &&
    decide (backendChoice ≠ 3) && s.frontMatches K N

theorem matmulInt8_ends (clear : s.Clear) (owned : s.QueueOwned) (M K N backendChoice : Int)
    (outcome : KernelOutcome)
    (divides : s.Int8Quantises M K N backendChoice outcome → K ≠ 0) :
    Completes (matmulInt8 M K N backendChoice outcome) s fun _ t =>
      Ends s t (s.Int8Reuses M K N backendChoice outcome) := by
  rw [matmulInt8]
  by_cases loaded : outcome.loaded = true
  · have fresh : s.Int8Reuses M K N backendChoice outcome = false := by
      simp [Int8Reuses, loaded]
    rw [if_pos loaded, fresh]
    split
    next valid =>
      have inner := divides (by simpa [Int8Quantises, loaded] using valid)
      apply (int8Engine_completes s M N inner).mono
      rintro _ t ⟨blocks, reached⟩
      exact .of_reached clear owned reached
    next => exact .pure (.of_reached clear owned (reached_here s))
  · rw [if_neg loaded]
    apply (fetchModel_completes s M K N backendChoice outcome).bind
    rintro model u ⟨interpreter, fetched, found⟩
    split
    next quantises =>
      simp only [interpreter, Bool.and_eq_true, decide_eq_true_eq] at quantises
      have inner := divides (by simpa [Int8Quantises, loaded] using quantises)
      have reuses : s.Int8Reuses M K N backendChoice outcome = s.frontMatches K N := by
        simp [Int8Reuses, loaded, quantises]
      rw [reuses]
      exact int8Fallback_ends clear owned found M outcome inner
    next copies =>
      have fresh : s.Int8Reuses M K N backendChoice outcome = false := by
        simp only [interpreter, Bool.and_eq_true, decide_eq_true_eq] at copies
        simp only [Int8Reuses]
        grind
      rw [fresh]
      refine .pure ?_
      constructor
      · intro _
        constructor
        · rw [found.live, found.popped, found.added, clear.popped, clear.added]
          simp [blocksHeld, add_comm]
        · rw [found.created, found.destroyed, found.popped, clear.created, clear.destroyed,
            clear.popped]
          rfl
      · intro same
        cases same
      · rw [QueueOwned, found.prefetchQueue, found.live]
        exact owned.trans (Multiset.le_add_left _ _)

end Calls

section Sessions

variable {s t : KernelMemory} {session : Session}

def Follows (s : KernelMemory) (session : Session) : Prop :=
  s.live = (session.live : Multiset Allocation)

theorem alloc_session (follows : s.Follows session) {size : Nat} {system : SystemMemory}
    {pad : Scratchpad} (small : size + 127 < 2 ^ 64) (sound : Scratchpad.Sound system session size)
    (answer : session.pad.alloc size system = some (s.answers 0, pad)) :
    Completes (alloc size) s fun _ t => ∃ next, Session.Step session next ∧ t.Follows next := by
  refine ⟨_, _, rfl, _, .alloc session size system (s.answers 0) pad small sound answer, ?_⟩
  rw [Follows] at follows ⊢
  cases pointer : (s.answers 0).pointer with
  | none => simp [remember, held, pointer, follows]
  | some address => simp [remember, held, pointer, follows, ← Multiset.cons_coe]

theorem free_session (follows : s.Follows session) {pointer : Option Allocation}
    (freed : free pointer s = some ((), t)) :
    ∃ next, Session.Step session next ∧ t.Follows next := by
  cases pointer with
  | none =>
      cases freed
      exact ⟨_, .freeNull session, follows⟩
  | some allocation =>
      rw [free] at freed
      split at freed
      next member =>
        cases freed
        rw [Follows] at follows
        rw [follows, Multiset.mem_coe] at member
        refine ⟨_, .free session allocation member, ?_⟩
        simp [Follows, follows]
      next => cases freed

end Sessions

end KernelMemory

namespace MemoryCall

variable (s : KernelMemory)

def Reuses : MemoryCall → Bool
  | .matmulInt8 M K N backendChoice outcome => s.Int8Reuses M K N backendChoice outcome
  | .matmulTiled .. => false

def DividesByZero : MemoryCall → Prop
  | .matmulInt8 M K N backendChoice outcome =>
      s.Int8Quantises M K N backendChoice outcome ∧ K = 0
  | .matmulTiled _ K _ mSplit kSplit nSplit outcome =>
      outcome.loaded = true ∧ (mSplit = 0 ∨ kSplit = 0 ∨ nSplit = 0 ∨ K = 0)

end MemoryCall

namespace KernelMemory

variable {s t : KernelMemory}

theorem kernel_ends (clear : s.Clear) (owned : s.QueueOwned) {call : MemoryCall}
    (divides : ¬ call.DividesByZero s) :
    Completes (kernel call) s fun _ t => Ends s t (call.Reuses s) := by
  cases call with
  | matmulInt8 M K N backendChoice outcome =>
      apply matmulInt8_ends clear owned
      intro quantises zero
      exact divides ⟨quantises, zero⟩
  | matmulTiled M K N mSplit kSplit nSplit outcome =>
      by_cases loaded : outcome.loaded = true
      · simp only [MemoryCall.DividesByZero, loaded, true_and, not_or] at divides
        obtain ⟨rows, inner, columns, elements⟩ := divides
        apply (matmulTiled_completes s M N outcome elements ⟨rows, inner, columns⟩).mono
        rintro _ t ⟨blocks, reached⟩
        exact .of_reached clear owned reached
      · rw [kernel, matmulTiled, if_neg loaded]
        exact .pure (.of_reached clear owned (reached_here s))

theorem matmulInt8_none {M K N backendChoice : Int} {outcome : KernelOutcome}
    (quantises : s.Int8Quantises M K N backendChoice outcome) (zero : K = 0) :
    matmulInt8 M K N backendChoice outcome s = none := by
  subst zero
  rw [matmulInt8]
  by_cases loaded : outcome.loaded = true
  · have valid : outcome.graphValid = true := by simpa [Int8Quantises, loaded] using quantises
    rw [if_pos loaded, if_pos valid]
    exact bind_none (construct_zero 1 M 0 true)
  · simp only [Int8Quantises, if_neg loaded] at quantises
    rw [if_neg loaded]
    apply bind_fails (fetchModel_completes s M 0 N backendChoice outcome)
    rintro model u ⟨interpreter, _⟩
    rw [if_pos (by simp [interpreter, quantises])]
    exact bind_none (construct_zero 2 M 0 true)

theorem matmulTiled_none {M K N mSplit kSplit nSplit : Int} {outcome : KernelOutcome}
    (loaded : outcome.loaded = true)
    (zero : mSplit = 0 ∨ kSplit = 0 ∨ nSplit = 0 ∨ K = 0) :
    matmulTiled M K N mSplit kSplit nSplit outcome s = none := by
  rw [matmulTiled, if_pos loaded]
  by_cases rows : mSplit = 0
  · subst rows
    exact bind_none (quotient_zero M)
  apply bind_fails (quotient_completes rows)
  rintro mBlock _ ⟨_, rfl⟩
  by_cases inner : kSplit = 0
  · subst inner
    exact bind_none (quotient_zero K)
  apply bind_fails (quotient_completes inner)
  rintro kBlock _ ⟨_, rfl⟩
  by_cases columns : nSplit = 0
  · subst columns
    exact bind_none (quotient_zero N)
  apply bind_fails (quotient_completes columns)
  rintro nBlock _ ⟨_, rfl⟩
  have elements : K = 0 := by simpa [rows, inner, columns] using zero
  subst elements
  exact bind_none (construct_zero 2 M 0 true)

theorem kernel_none {call : MemoryCall} (divides : call.DividesByZero s) :
    kernel call s = none := by
  cases call with
  | matmulInt8 M K N backendChoice outcome => exact matmulInt8_none divides.1 divides.2
  | matmulTiled M K N mSplit kSplit nSplit outcome =>
      exact matmulTiled_none divides.1 divides.2

theorem Ends.balanced_iff {reused : Bool} (ends : Ends s t reused) :
    Balanced s t ↔ reused = false := by
  cases reused with
  | false => exact iff_of_true (ends.balanced rfl) rfl
  | true =>
      obtain ⟨popped, destroyed⟩ := ends.leaves rfl
      refine iff_of_false ?_ (by decide)
      intro balanced
      rw [balanced.destroyed] at destroyed
      exact popped (by simpa using destroyed)

end KernelMemory

end NpuMatmul
