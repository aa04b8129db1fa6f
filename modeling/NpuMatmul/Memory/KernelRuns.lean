import NpuMatmul.Memory.BalancedKernels

set_option autoImplicit false

namespace NpuMatmul

open Completion Scratchpad

namespace KernelMemory

-- The other users of the queue: a task of prefetch_weights, and clear_queue.
def prefetch (rows cols : Int) : KernelM Unit := do
  let block ← construct 2 rows cols rows false
  modify fun s => { s with prefetchQueue := s.prefetchQueue.push block }

def destroyAll : List OwnedBlock → KernelM Unit
  | [] => pure ()
  | block :: rest => do
      destroy block
      destroyAll rest

def clearQueue : KernelM Unit := fun s =>
  destroyAll s.prefetchQueue.clearQueue.2 { s with prefetchQueue := s.prefetchQueue.clearQueue.1 }

end KernelMemory

inductive MemoryRequest where
  | kernel (call : MemoryCall)
  | prefetch (rows cols : Int)
  | clearQueue

namespace KernelMemory

def step (s : KernelMemory) : MemoryRequest → Option KernelMemory
  | .kernel call => s.run call
  | .prefetch rows cols => (prefetch rows cols s).map Prod.snd
  | .clearQueue => (clearQueue s).map Prod.snd

section Runs

variable {s t : KernelMemory} {live rest : Multiset Allocation}
  {created destroyed : Multiset OwnedBlock}

def cleared (s : KernelMemory) : KernelMemory :=
  { s with created := 0, popped := 0, destroyed := 0, added := 0 }

theorem queueOwned_empty (empty : s.prefetchQueue.queue = []) : s.QueueOwned := by
  rw [QueueOwned, empty]
  exact Multiset.zero_le s.live

theorem run_ends (owned : s.QueueOwned) {call : MemoryCall} (divides : ¬ call.DividesByZero s) :
    ∃ t, s.run call = some t ∧ Ends s.cleared t (call.Reuses s) := by
  have same : call.DividesByZero s.cleared ↔ call.DividesByZero s := by cases call <;> rfl
  have reuses : call.Reuses s.cleared = call.Reuses s := by cases call <;> rfl
  obtain ⟨_, t, returned, ends⟩ :=
    kernel_ends ⟨rfl, rfl, rfl, rfl⟩ (s := s.cleared) owned (mt same.mp divides)
  rw [reuses] at ends
  exact ⟨t, by rw [run, ← cleared, returned]; rfl, ends⟩

theorem run_none {call : MemoryCall} (divides : call.DividesByZero s) : s.run call = none := by
  have same : call.DividesByZero s.cleared := by cases call <;> exact divides
  rw [run, ← cleared, kernel_none same]
  rfl

theorem destroyAll_completes {blocks : List OwnedBlock}
    (reached : Reached s t (blocksHeld (blocks : Multiset OwnedBlock) + rest) created destroyed) :
    Completes (destroyAll blocks) t fun _ u =>
      ∃ gone, Reached s u rest created gone := by
  induction blocks generalizing t destroyed with
  | nil => exact .pure ⟨_, reached.rearrange rest (by simp [blocksHeld])⟩
  | cons block others ih =>
      have split := reached.rearrange
        (block.buffers + (blocksHeld (others : Multiset OwnedBlock) + rest)) (by
          simp [blocksHeld, ← Multiset.cons_coe, add_assoc])
      apply (destroy_completes split).bind
      intro _ _ reached
      exact ih reached

theorem prefetch_owned (owned : s.QueueOwned) {rows : Int} (present : rows ≠ 0) (cols : Int) :
    Completes (prefetch rows cols) s fun _ t => t.QueueOwned := by
  apply (construct_completes (reached_here s) present 2 rows cols false).bind
  intro block u reached
  refine ⟨_, _, rfl, ?_⟩
  rw [QueueOwned] at owned ⊢
  change blocksHeld ((u.prefetchQueue.queue ++ [block] : List OwnedBlock) :
    Multiset OwnedBlock) ≤ u.live
  rw [reached.prefetchQueue, reached.live, ← Multiset.coe_add, blocksHeld, Multiset.map_add,
    Multiset.sum_add, add_comm]
  simpa [blocksHeld] using owned

theorem clearQueue_owned (owned : s.QueueOwned) :
    Completes clearQueue s fun _ t => t.QueueOwned := by
  obtain ⟨others, live⟩ := Multiset.le_iff_exists_add.mp owned
  have here := (reached_here { s with prefetchQueue := s.prefetchQueue.clearQueue.1 }).rearrange
    (blocksHeld (s.prefetchQueue.queue : Multiset OwnedBlock) + others) live
  apply (destroyAll_completes here).mono
  rintro _ t ⟨gone, reached⟩
  apply queueOwned_empty
  rw [reached.prefetchQueue]
  rfl

theorem step_owned {request : MemoryRequest} (owned : s.QueueOwned)
    (moved : step s request = some t) : t.QueueOwned := by
  cases request with
  | kernel call =>
      by_cases divides : call.DividesByZero s
      · simp [step, run_none divides] at moved
      · obtain ⟨last, returned, ends⟩ := run_ends owned divides
        rw [step, returned] at moved
        cases moved
        exact ends.owned
  | prefetch rows cols =>
      obtain ⟨⟨_, last⟩, returned, rfl⟩ := Option.map_eq_some_iff.mp moved
      by_cases present : rows = 0
      · subst present
        have fails : prefetch 0 cols s = none := bind_none (construct_zero 2 0 cols false)
        rw [fails] at returned
        cases returned
      · exact (prefetch_owned owned present cols).returned returned
  | clearQueue =>
      obtain ⟨⟨_, last⟩, returned, rfl⟩ := Option.map_eq_some_iff.mp moved
      exact (clearQueue_owned owned).returned returned

theorem queueOwned_reached {requests : List MemoryRequest} (empty : s.prefetchQueue.queue = [])
    (reached : Runs.after step s requests = some t) : t.QueueOwned := by
  apply Runs.after_kept (fun _ _ _ owned moved => step_owned owned moved) _ reached
  exact queueOwned_empty empty

end Runs

-- A call returns unless it divides by zero, and it is balanced unless it reuses a popped block.
theorem run_balanced_iff {s : KernelMemory} (owned : s.QueueOwned) (call : MemoryCall) :
    (s.run call = none ↔ call.DividesByZero s) ∧
      ∀ t, s.run call = some t → (Balanced s t ↔ call.Reuses s = false) := by
  by_cases divides : call.DividesByZero s
  · simp [run_none divides, divides]
  · obtain ⟨last, returned, ends⟩ := run_ends owned divides
    constructor
    · simp [returned, divides]
    · intro t moved
      rw [returned] at moved
      cases moved
      rw [← ends.balanced_iff]
      constructor
      · intro balanced
        exact ⟨balanced.live, balanced.destroyed⟩
      · intro balanced
        exact ⟨balanced.live, balanced.destroyed⟩

section Sample

def sampleBlock : OwnedBlock :=
  { rows := 1, cols := 1, mantissa := some ⟨128, 2, false⟩, exponents := some ⟨384, 4, false⟩
    means := some ⟨640, 4, false⟩, stdDevs := some ⟨896, 4, false⟩
    precisions := some ⟨1152, 4, false⟩ }

def waiting : KernelMemory :=
  { live := sampleBlock.buffers, answers := fun i => ⟨some (2048 + 256 * i), false⟩
    prefetchQueue := { queue := [sampleBlock] }, models := []
    created := 0, popped := 0, destroyed := 0, added := 0 }

def noEngine : KernelOutcome :=
  { loaded := false, graphValid := false, interpreter := true, bytesA := 2, bytesB := 2
    bytesOut := 2, invoked := true }

end Sample

theorem waiting_other :
    (waiting.run (.matmulInt8 1 1 2 1 noEngine) = none ↔
        MemoryCall.DividesByZero waiting (.matmulInt8 1 1 2 1 noEngine)) ∧
      ∀ t, waiting.run (.matmulInt8 1 1 2 1 noEngine) = some t →
        (Balanced waiting t ↔
          MemoryCall.Reuses waiting (.matmulInt8 1 1 2 1 noEngine) = false) :=
  run_balanced_iff (by simp [QueueOwned, waiting, blocksHeld]) _

-- The popped block is used, and neither deleted nor put back.
theorem waiting_matching :
    ∃ t, waiting.run (.matmulInt8 1 1 1 1 noEngine) = some t ∧ t.popped = {sampleBlock} ∧
      t.destroyed.count sampleBlock = 0 ∧ ¬ Balanced waiting t := by
  refine ⟨_, rfl, by decide, by decide, ?_⟩
  intro balanced
  exact absurd balanced.destroyed (by decide)

end KernelMemory

end NpuMatmul
