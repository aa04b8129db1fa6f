import Mathlib.Data.List.Nodup
import Mathlib.Data.List.Perm.Basic
import NpuMatmul.Prefetch.Queue
import NpuMatmul.Shared.Runs

set_option autoImplicit false

namespace NpuMatmul

-- A task of std::async that has still to push its block. Its future is waited for by number.
structure PrefetchTask (Block : Type) where
  future : Nat
  block : Block

inductive ClearPhase where
  | drain
  | wait
  | returned
deriving DecidableEq, Repr

structure Clearing (Block : Type) where
  phase : ClearPhase
  prefetchQueue : PrefetchQueue Block
  inFlight : List (PrefetchTask Block)
  activePrefetchFutures : List Nat
  pushed : List Block
  destroyed : List Block

-- What clear_queue() is called on: every task in flight has its future in the vector, and no two
-- blocks are the same.
structure Outstanding (Block : Type) where
  queue : List Block
  inFlight : List (PrefetchTask Block)
  activePrefetchFutures : List Nat
  awaited : ∀ task ∈ inFlight, task.future ∈ activePrefetchFutures
  distinct : (queue ++ inFlight.map PrefetchTask.block).Nodup

inductive ClearEvent where
  -- The task at this place in inFlight pushes its block and ends.
  | finish (index : Nat)
  | drain
  -- ~future() blocks until its task has ended.
  | destroyFuture
  | finishClear
deriving DecidableEq, Repr

section Clear

variable {Block : Type}

def Outstanding.start (outstanding : Outstanding Block) : Clearing Block :=
  { phase := .drain
    prefetchQueue := { queue := outstanding.queue }
    inFlight := outstanding.inFlight
    activePrefetchFutures := outstanding.activePrefetchFutures
    pushed := outstanding.queue
    destroyed := [] }

def Clearing.pending (s : Clearing Block) (future : Nat) : Bool :=
  s.inFlight.any fun task => task.future == future

def Clearing.step (s : Clearing Block) : ClearEvent → Option (Clearing Block)
  | .finish index =>
      match s.inFlight[index]? with
      | some task =>
          some { s with
            prefetchQueue := s.prefetchQueue.push task.block
            inFlight := s.inFlight.eraseIdx index
            pushed := s.pushed ++ [task.block] }
      | none => none
  | .drain =>
      match s.phase with
      | .drain =>
          some { s with
            phase := .wait
            prefetchQueue := s.prefetchQueue.clearQueue.1
            destroyed := s.destroyed ++ s.prefetchQueue.clearQueue.2 }
      | _ => none
  | .destroyFuture =>
      match s.phase, s.activePrefetchFutures with
      | .wait, future :: rest =>
          if s.pending future then none else some { s with activePrefetchFutures := rest }
      | _, _ => none
  | .finishClear =>
      match s.phase, s.activePrefetchFutures with
      | .wait, [] => some { s with phase := .returned }
      | _, _ => none

structure Cleared [DecidableEq Block] (s : Clearing Block) : Prop where
  empty : s.prefetchQueue.queue = []
  idle : s.inFlight = []
  destroyed : ∀ block ∈ s.pushed, s.destroyed.count block = 1

def DrainsLast (s : Clearing Block) (event : ClearEvent) : Prop :=
  event = .drain → s.phase = .drain → s.inFlight = []

section Invariant

variable {s next last : Clearing Block} {event : ClearEvent}

structure Clearing.Tracked (s : Clearing Block) : Prop where
  awaited : ∀ task ∈ s.inFlight, task.future ∈ s.activePrefetchFutures
  pushed : s.pushed.Perm (s.destroyed ++ s.prefetchQueue.queue)
  distinct : (s.pushed ++ s.inFlight.map PrefetchTask.block).Nodup
  waited : s.phase = .returned → s.inFlight = []

theorem Outstanding.start_tracked (outstanding : Outstanding Block) :
    outstanding.start.Tracked :=
  ⟨outstanding.awaited, List.Perm.refl _, outstanding.distinct, nofun⟩

theorem step_finish {index : Nat} (moved : s.step (.finish index) = some next) :
    ∃ task, s.inFlight[index]? = some task ∧
      next = { s with
        prefetchQueue := s.prefetchQueue.push task.block
        inFlight := s.inFlight.eraseIdx index
        pushed := s.pushed ++ [task.block] } := by
  simp only [Clearing.step] at moved
  split at moved
  · rename_i task found
    exact ⟨task, found, (Option.some.inj moved).symm⟩
  · cases moved

theorem step_drain (moved : s.step .drain = some next) :
    s.phase = .drain ∧
      next = { s with
        phase := .wait
        prefetchQueue := { queue := [] }
        destroyed := s.destroyed ++ s.prefetchQueue.queue } := by
  simp only [Clearing.step] at moved
  split at moved
  · exact ⟨‹_›, (Option.some.inj moved).symm⟩
  · cases moved

theorem step_destroyFuture (moved : s.step .destroyFuture = some next) :
    s.phase = .wait ∧ ∃ future rest, s.activePrefetchFutures = future :: rest ∧
      s.pending future = false ∧ next = { s with activePrefetchFutures := rest } := by
  simp only [Clearing.step] at moved
  split at moved
  case h_1 future rest phase futures =>
    split at moved
    · cases moved
    case isFalse ended =>
      exact ⟨phase, future, rest, futures, by simpa using ended, (Option.some.inj moved).symm⟩
  case h_2 => cases moved

theorem step_finishClear (moved : s.step .finishClear = some next) :
    s.phase = .wait ∧ s.activePrefetchFutures = [] ∧ next = { s with phase := .returned } := by
  simp only [Clearing.step] at moved
  split at moved
  case h_1 phase futures => exact ⟨phase, futures, (Option.some.inj moved).symm⟩
  case h_2 => cases moved

theorem finished_perm {index : Nat} {task : PrefetchTask Block}
    (found : s.inFlight[index]? = some task) :
    s.inFlight.Perm (task :: s.inFlight.eraseIdx index) := by
  obtain ⟨below, rfl⟩ := List.getElem?_eq_some_iff.mp found
  exact (List.getElem_cons_eraseIdx_perm below).symm

theorem Clearing.Tracked.step (tracked : s.Tracked) (moved : s.step event = some next) :
    next.Tracked := by
  cases event with
  | finish index =>
      obtain ⟨task, found, rfl⟩ := step_finish moved
      have perm := finished_perm found
      refine ⟨?_, ?_, ?_, ?_⟩
      · intro other member
        exact tracked.awaited other (List.mem_of_mem_eraseIdx member)
      · simpa [PrefetchQueue.push] using tracked.pushed.append_right [task.block]
      · have all := (perm.map PrefetchTask.block).append_left s.pushed
        simpa using all.nodup_iff.mp tracked.distinct
      · intro back
        have none := tracked.waited back
        simp [none] at found
  | drain =>
      obtain ⟨_, rfl⟩ := step_drain moved
      exact ⟨tracked.awaited, by simpa using tracked.pushed, tracked.distinct, nofun⟩
  | destroyFuture =>
      obtain ⟨phase, future, rest, futures, done, rfl⟩ := step_destroyFuture moved
      refine ⟨?_, tracked.pushed, tracked.distinct, tracked.waited⟩
      intro task member
      have known := tracked.awaited task member
      rw [futures, List.mem_cons] at known
      obtain same | later := known
      · have pending : s.pending future = true := by
          rw [Clearing.pending, List.any_eq_true]
          exact ⟨task, member, by simp [same]⟩
        rw [done] at pending
        cases pending
      · exact later
  | finishClear =>
      obtain ⟨_, futures, rfl⟩ := step_finishClear moved
      refine ⟨tracked.awaited, tracked.pushed, tracked.distinct, fun _ => ?_⟩
      apply List.eq_nil_iff_forall_not_mem.mpr
      intro task member
      have known := tracked.awaited task member
      rw [futures] at known
      cases known

theorem step_drained (drained : s.phase ≠ .drain) (moved : s.step event = some next) :
    next.phase ≠ .drain ∧
      ((next.prefetchQueue.queue = s.prefetchQueue.queue ∧ next.inFlight = s.inFlight) ∨
        (s.inFlight ≠ [] ∧ next.prefetchQueue.queue ≠ [])) := by
  cases event with
  | finish index =>
      obtain ⟨task, found, rfl⟩ := step_finish moved
      refine ⟨drained, Or.inr ⟨?_, by simp [PrefetchQueue.push]⟩⟩
      intro idle
      simp [idle] at found
  | drain => exact absurd (step_drain moved).1 drained
  | destroyFuture =>
      obtain ⟨_, future, rest, _, _, rfl⟩ := step_destroyFuture moved
      exact ⟨drained, Or.inl ⟨rfl, rfl⟩⟩
  | finishClear =>
      obtain ⟨_, _, rfl⟩ := step_finishClear moved
      exact ⟨nofun, Or.inl ⟨rfl, rfl⟩⟩

theorem leftover_step (drained : s.phase ≠ .drain)
    (left : s.prefetchQueue.queue ≠ [] ∨ s.inFlight ≠ []) (moved : s.step event = some next) :
    next.phase ≠ .drain ∧ (next.prefetchQueue.queue ≠ [] ∨ next.inFlight ≠ []) := by
  obtain ⟨past, ⟨queue, tasks⟩ | ⟨_, pushed⟩⟩ := step_drained drained moved
  · rw [queue, tasks]
    exact ⟨past, left⟩
  · exact ⟨past, Or.inl pushed⟩

theorem emptied_step (drained : s.phase ≠ .drain) (empty : s.prefetchQueue.queue = [])
    (idle : s.inFlight = []) (moved : s.step event = some next) :
    next.phase ≠ .drain ∧ next.prefetchQueue.queue = [] ∧ next.inFlight = [] := by
  obtain ⟨past, ⟨queue, tasks⟩ | ⟨busy, _⟩⟩ := step_drained drained moved
  · rw [queue, tasks]
    exact ⟨past, empty, idle⟩
  · exact absurd idle busy

theorem Clearing.Tracked.run (tracked : s.Tracked) {schedule : List ClearEvent}
    (reached : Runs.after Clearing.step s schedule = some last) : last.Tracked :=
  Runs.after_kept (fun _ _ _ kept moved => kept.step moved) tracked reached

theorem along_drained (drained : s.phase ≠ .drain) (schedule : List ClearEvent) :
    Runs.Along Clearing.step DrainsLast s schedule := by
  apply Runs.along_kept (I := fun t : Clearing Block => t.phase ≠ .drain) _ _ drained
  · exact fun _ _ _ drained moved => (step_drained drained moved).1
  · exact fun _ _ drained _ again => absurd again drained

theorem leftover_run (drained : s.phase ≠ .drain)
    (left : s.prefetchQueue.queue ≠ [] ∨ s.inFlight ≠ []) {schedule : List ClearEvent}
    (reached : Runs.after Clearing.step s schedule = some last) :
    last.prefetchQueue.queue ≠ [] ∨ last.inFlight ≠ [] :=
  (Runs.after_kept (I := fun t : Clearing Block =>
    t.phase ≠ .drain ∧ (t.prefetchQueue.queue ≠ [] ∨ t.inFlight ≠ []))
    (fun _ _ _ kept moved => leftover_step kept.1 kept.2 moved) ⟨drained, left⟩ reached).2

theorem emptied_run (drained : s.phase ≠ .drain) (empty : s.prefetchQueue.queue = [])
    (idle : s.inFlight = []) {schedule : List ClearEvent}
    (reached : Runs.after Clearing.step s schedule = some last) :
    last.prefetchQueue.queue = [] ∧ last.inFlight = [] :=
  (Runs.after_kept (I := fun t : Clearing Block =>
    t.phase ≠ .drain ∧ t.prefetchQueue.queue = [] ∧ t.inFlight = [])
    (fun _ _ _ kept moved => emptied_step kept.1 kept.2.1 kept.2.2 moved)
    ⟨drained, empty, idle⟩ reached).2

-- By induction on the schedule up to the drain, which decides what is left at the end.
theorem emptied_iff (before : s.phase = .drain) {schedule : List ClearEvent}
    (reached : Runs.after Clearing.step s schedule = some last) (returned : last.phase = .returned) :
    (last.prefetchQueue.queue = [] ∧ last.inFlight = []) ↔
      Runs.Along Clearing.step DrainsLast s schedule := by
  induction schedule generalizing s with
  | nil =>
      cases reached
      rw [before] at returned
      cases returned
  | cons event rest ih =>
      obtain ⟨next, moved, later⟩ := Option.bind_eq_some_iff.mp reached
      have only : Runs.Along Clearing.step DrainsLast s (event :: rest) ↔
          DrainsLast s event ∧ Runs.Along Clearing.step DrainsLast next rest := by
        simp [Runs.Along, moved]
      rw [only]
      cases event with
      | finish index =>
          obtain ⟨task, _, same⟩ := step_finish moved
          rw [ih (by rw [same]; exact before) later]
          exact (and_iff_right fun contradiction => nomatch contradiction).symm
      | destroyFuture =>
          rw [(step_destroyFuture moved).1] at before
          cases before
      | finishClear =>
          rw [(step_finishClear moved).1] at before
          cases before
      | drain =>
          obtain ⟨_, same⟩ := step_drain moved
          have drained : next.phase ≠ .drain := by
            rw [same]
            exact nofun
          rw [and_iff_left (along_drained drained rest)]
          constructor
          · rintro ⟨empty, idle⟩ _ _
            by_contra busy
            have left := leftover_run drained (Or.inr (by rw [same]; exact busy)) later
            simp [empty, idle] at left
          · intro drainsLast
            have idle := drainsLast rfl before
            exact emptied_run drained (by rw [same]) (by rw [same]; exact idle) later

theorem cleared_iff_emptied [DecidableEq Block] (tracked : last.Tracked) :
    Cleared last ↔ last.prefetchQueue.queue = [] ∧ last.inFlight = [] := by
  constructor
  · exact fun cleared => ⟨cleared.empty, cleared.idle⟩
  · rintro ⟨empty, idle⟩
    refine ⟨empty, idle, fun block member => ?_⟩
    have pushed := tracked.pushed
    have distinct := tracked.distinct
    rw [empty, List.append_nil] at pushed
    simp only [idle, List.map_nil, List.append_nil] at distinct
    rw [← pushed.count_eq]
    exact List.count_eq_one_of_mem distinct member

end Invariant

-- When clear_queue() is back, all is gone in exactly the schedules in which no task was still in
-- flight when it drained the queue; a task that ends later pushes into the drained queue.
theorem cleared_iff_drains_last [DecidableEq Block] (outstanding : Outstanding Block)
    {schedule : List ClearEvent} {last : Clearing Block}
    (reached : Runs.after Clearing.step outstanding.start schedule = some last)
    (returned : last.phase = .returned) :
    Cleared last ↔ Runs.Along Clearing.step DrainsLast outstanding.start schedule := by
  rw [cleared_iff_emptied (outstanding.start_tracked.run reached)]
  exact emptied_iff rfl reached returned

def oneTask : Outstanding Nat :=
  { queue := [], inFlight := [⟨0, 7⟩], activePrefetchFutures := [0], awaited := by simp,
    distinct := by simp }

theorem cleared_after_task :
    ∃ last, Runs.after Clearing.step oneTask.start [.finish 0, .drain, .destroyFuture, .finishClear] =
        some last ∧ last.phase = .returned ∧ Cleared last := by
  have reached : Runs.after Clearing.step oneTask.start
      [.finish 0, .drain, .destroyFuture, .finishClear] = some _ := rfl
  refine ⟨_, reached, rfl, (cleared_iff_drains_last oneTask reached rfl).mpr ?_⟩
  refine ⟨nofun, fun next moved => ⟨?_, ?_⟩⟩
  · cases moved
    exact fun _ _ => rfl
  · intro drained again
    exact along_drained (by rw [(step_drain again).2]; nofun) _

-- The drain first, then the task ends while its future is waited for: its block stays queued.
theorem clear_leaves_block :
    ∃ last, Runs.after Clearing.step oneTask.start [.drain, .finish 0, .destroyFuture, .finishClear] =
        some last ∧ last.phase = .returned ∧ ¬ Cleared last :=
  ⟨_, rfl, rfl, fun cleared => List.cons_ne_nil _ _ cleared.empty⟩

end Clear

end NpuMatmul
