import Mathlib.Tactic.Abel
import NpuMatmul.Memory.Kernels

set_option autoImplicit false

namespace NpuMatmul.KernelMemory

open Completion Scratchpad

-- From s the code got to t: what is live there, and what was constructed and destroyed since.
structure Reached (s t : KernelMemory) (live : Multiset Allocation)
    (created destroyed : Multiset OwnedBlock) : Prop where
  live : t.live = live
  created : t.created = created + s.created
  destroyed : t.destroyed = destroyed + s.destroyed
  prefetchQueue : t.prefetchQueue = s.prefetchQueue
  models : t.models = s.models
  popped : t.popped = s.popped
  added : t.added = s.added

section Operations

variable {s t : KernelMemory} {live rest : Multiset Allocation}
  {created destroyed : Multiset OwnedBlock} {pointer : Option Allocation} {block : OwnedBlock}

theorem reached_here (s : KernelMemory) : Reached s s s.live 0 0 := by
  constructor <;> simp

theorem Reached.rearrange (reached : Reached s t live created destroyed)
    (wanted : Multiset Allocation) (same : live = wanted) :
    Reached s t wanted created destroyed := same ▸ reached

theorem alloc_completes (reached : Reached s t rest created destroyed) (size : Nat) :
    Completes (alloc size) t fun pointer u =>
      Reached s u (held pointer + rest) created destroyed := by
  exact ⟨_, _, rfl, { reached with live := congrArg (held _ + ·) reached.live }⟩

theorem free_completes (reached : Reached s t (held pointer + rest) created destroyed) :
    Completes (free pointer) t fun _ u => Reached s u rest created destroyed := by
  cases pointer with
  | none => exact ⟨_, _, rfl, reached.rearrange rest (zero_add rest)⟩
  | some allocation =>
      have live : t.live = allocation ::ₘ rest := by
        rw [reached.live, held, Multiset.singleton_add]
      have member : allocation ∈ t.live := by
        rw [live]
        exact Multiset.mem_cons_self allocation rest
      have erased : t.live.erase allocation = rest := by
        rw [live, Multiset.erase_cons_head]
      exact ⟨(), _, if_pos member, { reached with live := erased }⟩

theorem quotient_completes {dividend divisor : Int} (nonzero : divisor ≠ 0) :
    Completes (quotient dividend divisor) t fun value u =>
      value = dividend.tdiv divisor ∧ t = u :=
  ⟨_, _, if_neg nonzero, rfl, rfl⟩

theorem quotient_zero (dividend : Int) : quotient dividend 0 t = none := rfl

theorem construct_completes (reached : Reached s t rest created destroyed) {blockSize : Int}
    (nonzero : blockSize ≠ 0) (sizeofT rows cols : Int) (columns : Bool) :
    Completes (construct sizeofT rows cols blockSize columns) t fun block u =>
      Reached s u (block.buffers + rest) ({block} + created) destroyed := by
  apply (alloc_completes reached _).bind
  intro mantissa _ reached
  apply (quotient_completes nonzero).bind
  rintro _ _ ⟨_, rfl⟩
  apply (alloc_completes reached _).bind
  intro exponents _ reached
  apply (alloc_completes reached _).bind
  intro means _ reached
  apply (alloc_completes reached _).bind
  intro stdDevs _ reached
  apply (alloc_completes reached _).bind
  intro precisions last reached
  let block : OwnedBlock := ⟨rows, cols, mantissa, exponents, means, stdDevs, precisions⟩
  have built := reached.rearrange (block.buffers + rest) (by
    simp only [block, OwnedBlock.buffers]
    abel)
  have created : {block} + last.created = {block} + created + s.created := by
    rw [built.created, add_assoc]
  exact ⟨block, _, rfl, { built with created := created }⟩

theorem construct_zero (sizeofT rows cols : Int) (columns : Bool) :
    construct sizeofT rows cols 0 columns t = none := by
  have mantissa := alloc_completes (reached_here t) (sizeT (rows * cols * sizeofT))
  exact bind_fails mantissa fun _ u _ => bind_none (quotient_zero _)

theorem destroy_completes (reached : Reached s t (block.buffers + rest) created destroyed) :
    Completes (destroy block) t fun _ u => Reached s u rest created ({block} + destroyed) := by
  have mantissa := reached.rearrange (held block.mantissa + (held block.exponents +
    (held block.means + (held block.stdDevs + (held block.precisions + rest))))) (by
      simp only [OwnedBlock.buffers]
      abel)
  apply (free_completes mantissa).bind
  intro _ _ exponents
  apply (free_completes exponents).bind
  intro _ _ means
  apply (free_completes means).bind
  intro _ _ stdDevs
  apply (free_completes stdDevs).bind
  intro _ _ precisions
  apply (free_completes precisions).bind
  intro _ last reached
  have destroyed : {block} + last.destroyed = {block} + destroyed + s.destroyed := by
    rw [reached.destroyed, add_assoc]
  exact ⟨_, _, rfl, { reached with destroyed := destroyed }⟩

theorem destroyBoth_completes {first second : OwnedBlock}
    (reached : Reached s t (second.buffers + (first.buffers + live)) ({second} + ({first} + 0)) 0) :
    Completes (do destroy second; destroy first) t fun _ u =>
      ∃ blocks, Reached s u live blocks blocks := by
  apply (destroy_completes reached).bind
  intro _ _ reached
  apply (destroy_completes reached).mono
  intro _ u reached
  have same : {first} + ({second} + 0) = ({second} + ({first} + 0) : Multiset OwnedBlock) := by
    abel
  rw [same] at reached
  exact ⟨_, reached⟩

end Operations

section Segments

variable {s t : KernelMemory} {live rest : Multiset Allocation}
  {created destroyed : Multiset OwnedBlock}

theorem int8Engine_completes (s : KernelMemory) (M N : Int) {K : Int} (inner : K ≠ 0) :
    Completes (int8Engine M K N) s fun _ t => ∃ blocks, Reached s t s.live blocks blocks := by
  apply (construct_completes (reached_here s) inner 1 M K true).bind
  intro fixedA _ reached
  apply (construct_completes reached inner 1 N K true).bind
  intro fixedB _ reached
  apply (alloc_completes reached _).bind
  intro uA _ reached
  apply (alloc_completes reached _).bind
  intro uB _ reached
  apply (alloc_completes reached _).bind
  intro outBuf _ reached
  have staged := reached.rearrange (held uA + (held uB + (held outBuf +
    (fixedB.buffers + (fixedA.buffers + s.live))))) (by abel)
  apply (free_completes staged).bind
  intro _ _ reached
  apply (free_completes reached).bind
  intro _ _ reached
  apply (free_completes reached).bind
  intro _ _ reached
  exact destroyBoth_completes reached

theorem tiledRounds_completes (mBlock kBlock nBlock : Int) (rounds : Nat)
    (reached : Reached s t live created destroyed) :
    Completes (tiledRounds mBlock kBlock nBlock rounds) t fun _ u =>
      Reached s u live created destroyed := by
  induction rounds generalizing t with
  | zero => exact .pure reached
  | succ rounds ih =>
      have round : Completes (tiledRound mBlock kBlock nBlock) t fun _ u =>
          Reached s u live created destroyed := by
        apply (alloc_completes reached _).bind
        intro uABuf _ reached
        apply (alloc_completes reached _).bind
        intro uBBuf _ reached
        have staged := reached.rearrange (held uABuf + (held uBBuf + live)) (by abel)
        apply (free_completes staged).bind
        intro _ _ reached
        exact free_completes reached
      apply round.bind
      intro _ _ reached
      exact ih reached

theorem tiledExecution_completes (isValid : Bool) (mBlock kBlock nBlock kSplit : Int)
    (reached : Reached s t live created destroyed) :
    Completes (tiledExecution isValid mBlock kBlock nBlock kSplit) t fun _ u =>
      Reached s u live created destroyed := by
  cases isValid with
  | false => exact .pure reached
  | true =>
      apply (alloc_completes reached _).bind
      intro execOut _ reached
      apply (tiledRounds_completes mBlock kBlock nBlock kSplit.toNat reached).bind
      intro _ _ reached
      exact free_completes reached

theorem matmulTiled_completes (s : KernelMemory) (M N : Int) {K mSplit kSplit nSplit : Int}
    (outcome : KernelOutcome) (inner : K ≠ 0)
    (splits : mSplit ≠ 0 ∧ kSplit ≠ 0 ∧ nSplit ≠ 0) :
    Completes (matmulTiled M K N mSplit kSplit nSplit outcome) s fun _ t =>
      ∃ blocks, Reached s t s.live blocks blocks := by
  rw [matmulTiled]
  split
  next =>
    apply (quotient_completes splits.1).bind
    rintro mBlock _ ⟨_, rfl⟩
    apply (quotient_completes splits.2.1).bind
    rintro kBlock _ ⟨_, rfl⟩
    apply (quotient_completes splits.2.2).bind
    rintro nBlock _ ⟨_, rfl⟩
    apply (construct_completes (reached_here _) inner 2 M K true).bind
    intro blockA _ reached
    apply (construct_completes reached inner 1 N K true).bind
    intro blockB _ reached
    apply (tiledExecution_completes outcome.graphValid mBlock kBlock nBlock kSplit reached).bind
    intro _ _ reached
    exact destroyBoth_completes reached
  next => exact .pure ⟨0, reached_here s⟩

end Segments

def blocksHeld (blocks : Multiset OwnedBlock) : Multiset Allocation :=
  (blocks.map OwnedBlock.buffers).sum

def modelsHeld (models : Multiset OwnedModel) : Multiset Allocation :=
  (models.map OwnedModel.buffers).sum

def frontBlocks (s : KernelMemory) : Multiset OwnedBlock :=
  match s.prefetchQueue.queue with
  | [] => 0
  | block :: _ => {block}

def afterPop (s : KernelMemory) : KernelMemory :=
  { s with
    prefetchQueue := { queue := s.prefetchQueue.queue.tail }
    popped := s.frontBlocks + s.popped }

def frontMatches (s : KernelMemory) (K N : Int) : Bool :=
  match s.prefetchQueue.queue with
  | [] => false
  | block :: _ => decide (block.rows = K ∧ block.cols = N)

section Fallback

variable {s t : KernelMemory} {live rest : Multiset Allocation}
  {created destroyed : Multiset OwnedBlock} {K N : Int}

theorem pop_completes (reached : Reached s t live created destroyed) :
    Completes pop t fun popped u =>
      popped = s.prefetchQueue.queue.head? ∧ Reached s.afterPop u live created destroyed := by
  have same := reached.prefetchQueue
  cases waiting : s.prefetchQueue.queue with
  | nil =>
      have queue : PrefetchQueue.mk s.prefetchQueue.queue.tail = s.prefetchQueue := by
        rw [waiting, List.tail_nil, ← waiting]
      have unchanged : s.afterPop = s := by
        rw [afterPop, queue, frontBlocks, waiting, zero_add]
      refine ⟨none, t, by simp [pop, PrefetchQueue.pop, same, waiting], rfl, ?_⟩
      rw [unchanged]
      exact reached
  | cons block others =>
      have queue : PrefetchQueue.mk others = s.afterPop.prefetchQueue := by
        simp [afterPop, waiting]
      have popped : {block} + t.popped = s.afterPop.popped := by
        simp [afterPop, frontBlocks, waiting, reached.popped]
      refine ⟨some block, _, by simp [pop, PrefetchQueue.pop, same, waiting]; rfl, rfl, ?_⟩
      exact { reached with prefetchQueue := queue, popped := popped }

theorem rightBlock_matching (reached : Reached s t live created destroyed)
    (matching : s.frontMatches K N = true) :
    Completes (rightBlock K N) t fun result u =>
      result.2 = true ∧ Reached s.afterPop u live created destroyed := by
  apply (pop_completes reached).bind
  rintro _ u ⟨rfl, reached⟩
  cases waiting : s.prefetchQueue.queue with
  | nil => simp [frontMatches, waiting] at matching
  | cons block others =>
      simp only [frontMatches, waiting, decide_eq_true_eq] at matching
      simp only [List.head?_cons, if_pos matching]
      exact .pure ⟨rfl, reached⟩

theorem rightBlock_other
    (reached : Reached s t (blocksHeld s.frontBlocks + rest) created destroyed)
    (inner : K ≠ 0) (other : s.frontMatches K N = false) :
    Completes (rightBlock K N) t fun result u =>
      result.2 = false ∧ Reached s.afterPop u (result.1.buffers + rest) ({result.1} + created)
        (s.frontBlocks + destroyed) := by
  apply (pop_completes reached).bind
  rintro _ u ⟨rfl, reached⟩
  have fresh {v : KernelMemory} {gone : Multiset OwnedBlock}
      (reached : Reached s.afterPop v rest created gone) :
      Completes (do
        let fixedB ← construct 2 K N K false
        pure (fixedB, false)) v fun result u =>
          result.2 = false ∧
            Reached s.afterPop u (result.1.buffers + rest) ({result.1} + created) gone := by
    apply (construct_completes reached inner 2 K N false).bind
    intro fixedB _ reached
    exact .pure ⟨rfl, reached⟩
  cases waiting : s.prefetchQueue.queue with
  | nil =>
      have none : s.frontBlocks = 0 := by simp [frontBlocks, waiting]
      rw [none] at reached ⊢
      rw [zero_add]
      exact fresh (reached.rearrange rest (by simp [blocksHeld]))
  | cons block others =>
      have front : s.frontBlocks = {block} := by simp [frontBlocks, waiting]
      simp only [frontMatches, waiting, decide_eq_false_iff_not] at other
      rw [front] at reached ⊢
      simp only [List.head?_cons, if_neg other]
      have waste := reached.rearrange (block.buffers + rest) (by simp [blocksHeld])
      apply (destroy_completes waste).bind
      intro _ _ reached
      exact fresh reached

-- A block that was popped and used stays, with its buffers.
theorem int8Fallback_matching (s : KernelMemory) (M : Int) (outcome : KernelOutcome)
    (inner : K ≠ 0) (matching : s.frontMatches K N = true) :
    Completes (int8Fallback M K N outcome) s fun _ t =>
      ∃ blocks, Reached s.afterPop t s.live blocks blocks := by
  apply (construct_completes (reached_here s) inner 2 M K true).bind
  intro fixedA _ reached
  apply (rightBlock_matching reached matching).bind
  rintro ⟨fixedB, used⟩ u ⟨reused, reached⟩
  have returns : Completes (int8Return fixedA fixedB used) u fun _ t =>
      ∃ blocks, Reached s.afterPop t s.live blocks blocks := by
    rw [int8Return, discard, if_pos reused]
    apply (destroy_completes reached).mono
    intro _ t reached
    exact ⟨_, reached⟩
  simp only [ite_self]
  exact returns

theorem int8Fallback_other (M : Int) (outcome : KernelOutcome) (inner : K ≠ 0)
    (other : s.frontMatches K N = false) (front : s.live = blocksHeld s.frontBlocks + rest) :
    Completes (int8Fallback M K N outcome) s fun _ t =>
      ∃ blocks, Reached s.afterPop t rest blocks (blocks + s.frontBlocks) := by
  apply (construct_completes (reached_here s) inner 2 M K true).bind
  intro fixedA _ reached
  have waiting := reached.rearrange
    (blocksHeld s.frontBlocks + (fixedA.buffers + rest)) (by
      rw [front]
      abel)
  apply (rightBlock_other waiting inner other).bind
  rintro ⟨fixedB, used⟩ u ⟨unused, reached⟩
  have returns : Completes (int8Return fixedA fixedB used) u fun _ t =>
      ∃ blocks, Reached s.afterPop t rest blocks (blocks + s.frontBlocks) := by
    have kept : ¬ used = true := Bool.eq_false_iff.mp unused
    rw [int8Return, discard, if_neg kept]
    apply (destroy_completes reached).bind
    intro _ _ reached
    apply (destroy_completes reached).mono
    intro _ t reached
    have same : {fixedA} + ({fixedB} + (s.frontBlocks + 0)) =
        {fixedB} + ({fixedA} + 0) + s.frontBlocks := by abel
    rw [same] at reached
    exact ⟨_, reached⟩
  simp only [ite_self]
  exact returns

end Fallback

end NpuMatmul.KernelMemory
