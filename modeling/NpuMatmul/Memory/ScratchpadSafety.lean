import NpuMatmul.Memory.ScratchpadSession

set_option autoImplicit false

namespace NpuMatmul.Scratchpad

open LinkedHeap Tiling Relation

theorem remember_arena_matches {pad pad' : Scratchpad} {live : List Allocation} {base size : Nat}
    {before after : List Block} {block : Block}
    (fits : Matches pad live base (before ++ block :: after)) (free : block.isFree = true)
    (large : alignUp size ≤ block.size) (small : size + 127 < 2 ^ 64)
    (laid : Laid pad' base (before ++ (taken block (alignUp size) ++ after))) :
    Matches pad' (⟨block.payload, size, false⟩ :: live) base
      (before ++ (taken block (alignUp size) ++ after)) := by
  obtain ⟨head, shape, address, room⟩ := occupied_taken block (alignUp size)
  have payload : head.payload = block.payload := by simp [Block.payload, address]
  have blocks : occupied (before ++ (taken block (alignUp size) ++ after)) =
      occupied before ++ head :: occupied after := by simp [shape]
  have old : occupied (before ++ block :: after) = occupied before ++ occupied after := by
    simp [free]
  have pointers : (arenaPointers (⟨block.payload, size, false⟩ :: live)).Perm
      ((occupied before ++ head :: occupied after).map Block.payload) := by
    have known := fits.pointers
    rw [old, List.map_append] at known
    simp only [arenaPointers_arena, List.map_append, List.map_cons, payload]
    exact (known.cons _).trans List.perm_middle.symm
  have nodup : (block.payload :: arenaPointers live).Nodup :=
    pointers.nodup_iff.mpr (blocks ▸ laid.payload_nodup)
  refine ⟨laid, blocks ▸ pointers, ?_⟩
  rw [blocks]
  intro allocation member arena other otherMember same
  rcases List.mem_cons.mp member with rfl | later
  · have headMember : head ∈ occupied before ++ head :: occupied after := by simp
    have equal : other = head :=
      List.inj_on_of_nodup_map (blocks ▸ laid.payload_nodup) otherMember headMember
        (same.trans payload.symm)
    have bound := le_alignUp small
    rw [equal]
    exact le_trans bound (room large)
  · have different : other ≠ head := by
      rintro rfl
      refine (List.nodup_cons.mp nodup).1 ?_
      rw [← payload, same]
      exact mem_arenaPointers later arena
    have kept : other ∈ occupied before ++ occupied after := by
      simp only [List.mem_append, List.mem_cons, different, false_or] at otherMember ⊢
      exact otherMember
    exact fits.requested allocation later arena other (old ▸ kept) same

theorem invariant_alloc {totalSize size : Nat} {session : Session} {system : SystemMemory}
    {result : AllocResult} {pad : Scratchpad} (large : 2 * sizeofBlockHeader ≤ totalSize)
    (inv : session.Invariant totalSize) (small : size + 127 < 2 ^ 64)
    (sound : Sound system session size)
    (call : session.pad.alloc size system = some (result, pad)) :
    Session.Invariant totalSize ⟨pad, remember session.live size result⟩ := by
  have ready : (session.pad.initializeIfNeeded system).totalSize = totalSize :=
    (initializeIfNeeded_totalSize _ _).trans inv.size
  have heap : HeapKept (session.pad.initializeIfNeeded system) session.live :=
    ⟨sound.arena, inv.heap.apart⟩
  have arena := arenaKept_initialize (inv.size ▸ large) inv.arena sound.aligned
  have fromHeap : ∀ pointer, Session.Invariant totalSize
      ⟨session.pad.initializeIfNeeded system, session.live⟩ →
        system.posixMemalign = some pointer → Session.Invariant totalSize
          ⟨session.pad.initializeIfNeeded system, ⟨pointer, size, true⟩ :: session.live⟩ := by
    intro pointer kept answer
    obtain ⟨outside, fresh⟩ := sound.request pointer answer
    refine ⟨ready, heap.remember_heap outside fresh, ?_⟩
    cases kept.arena with
    | absent buffer head empty => exact .absent buffer head empty
    | present base blocks fits =>
      refine .present base blocks ⟨fits.laid, fits.pointers, ?_⟩
      intro allocation member kind
      rcases List.mem_cons.mp member with rfl | later
      · simp at kind
      · exact fits.requested allocation later kind
  have whenHeap (answer : session.pad.alloc size system =
      some (⟨system.posixMemalign, true⟩, session.pad.initializeIfNeeded system)) :
      Session.Invariant totalSize ⟨pad, remember session.live size result⟩ := by
    rw [answer] at call
    obtain ⟨rfl, rfl⟩ := Prod.mk.inj (Option.some.inj call)
    cases request : system.posixMemalign with
    | none => exact ⟨ready, heap, arena⟩
    | some pointer => exact fromHeap pointer ⟨ready, heap, arena⟩ request
  cases arena with
  | absent buffer head empty => exact whenHeap (alloc_absent head)
  | present base blocks fits =>
    rw [← alloc_initialize] at call whenHeap
    rcases alloc_laid size system fits.laid with
      ⟨answer, -⟩ | ⟨before, block, after, pad', rfl, free, room, answer, keptSize, laid⟩
    · exact whenHeap answer
    · rw [answer] at call
      obtain ⟨rfl, rfl⟩ := Prod.mk.inj (Option.some.inj call)
      refine ⟨keptSize.trans ready, ?_, ?_⟩
      · have buffer : pad'.memoryBuffer = (session.pad.initializeIfNeeded system).memoryBuffer :=
          laid.buffer.trans fits.laid.buffer.symm
        exact (heap.congr buffer keptSize).remember_arena
      · exact .present base _ (remember_arena_matches fits free room small laid)

theorem invariant_free {totalSize : Nat} {session : Session} {allocation : Allocation}
    (inv : session.Invariant totalSize) (member : allocation ∈ session.live) :
    Session.Invariant totalSize
      ⟨(session.pad.free (some allocation.pointer)).1, session.live.erase allocation⟩ := by
  have pointers := arenaPointers_erase member
  cases kind : allocation.fromHeap with
  | true =>
    have outside := (inv.heap.outside allocation member kind).1
    have unchanged : (session.pad.free (some allocation.pointer)).1 = session.pad := by
      simp [free, outside]
    have same : arenaPointers [allocation] = [] := by simp [arenaPointers, kind]
    rw [same, List.nil_append] at pointers
    rw [unchanged]
    refine ⟨inv.size, inv.heap.erase allocation, ?_⟩
    cases inv.arena with
    | absent buffer head empty => exact .absent buffer head (List.Perm.eq_nil (empty ▸ pointers.symm))
    | present base blocks fits =>
      exact .present base blocks ⟨fits.laid, pointers.symm.trans fits.pointers,
        fun other inside => fits.requested other (List.mem_of_mem_erase inside)⟩
  | false =>
    have known := mem_arenaPointers member kind
    cases arena : inv.arena with
    | absent buffer head empty => simp [empty] at known
    | present base blocks fits =>
      obtain ⟨block, inside, same, -⟩ := fits.block member kind
      obtain ⟨before, after, rfl⟩ := List.append_of_mem (mem_occupied.mp inside).1
      have taken : block.isFree = false := (mem_occupied.mp inside).2
      obtain ⟨-, keptSize, laid⟩ := free_laid fits.laid
      rw [same] at keptSize laid
      have old : occupied (before ++ block :: after) =
          occupied before ++ block :: occupied after := by simp [taken]
      refine ⟨keptSize.trans inv.size, ?_, .present base _ ⟨laid, ?_, ?_⟩⟩
      · exact (inv.heap.congr (laid.buffer.trans fits.laid.buffer.symm) keptSize).erase allocation
      · have single : arenaPointers [allocation] = [allocation.pointer] := by
          simp [arenaPointers, kind]
        rw [single, List.singleton_append] at pointers
        have known := pointers.symm.trans fits.pointers
        rw [old, List.map_append, List.map_cons, same] at known
        rw [occupied_released, List.map_append]
        exact (known.trans List.perm_middle).cons_inv
      · intro other otherMember arena chosen chosenMember
        rw [occupied_released] at chosenMember
        have inOld : chosen ∈ occupied (before ++ block :: after) := by
          rw [old]
          rcases List.mem_append.mp chosenMember with left | right
          · exact List.mem_append_left _ left
          · exact List.mem_append_right _ (List.mem_cons_of_mem _ right)
        exact fits.requested other (List.mem_of_mem_erase otherMember) arena chosen inOld

theorem invariant_write {totalSize : Nat} {session : Session} {headers : Nat → BlockHeader}
    (inv : session.Invariant totalSize)
    (confined : ∀ address, (∀ allocation ∈ session.live,
      Apart (address, sizeofBlockHeader) (session.pad.payload allocation)) →
        headers address = session.pad.headers address) :
    Session.Invariant totalSize ⟨{ session.pad with headers := headers }, session.live⟩ := by
  refine ⟨inv.size, inv.heap.congr rfl rfl, ?_⟩
  cases inv.arena with
  | absent buffer head empty => exact .absent buffer head empty
  | present base blocks fits =>
    have represents : Represents headers none blocks none := by
      refine fits.laid.represents.congr ?_
      intro block member
      exact confined block.address fun allocation live => header_apart fits inv.heap member live
    exact .present base blocks
      ⟨⟨fits.laid.buffer, fits.laid.head, represents, fits.laid.tiled, fits.laid.coalesced⟩,
        fits.pointers, fits.requested⟩

theorem invariant_step {totalSize : Nat} (large : 2 * sizeofBlockHeader ≤ totalSize)
    {session session' : Session} (inv : session.Invariant totalSize)
    (step : Session.Step session session') : session'.Invariant totalSize := by
  cases step with
  | alloc size system result pad small sound call => exact invariant_alloc large inv small sound call
  | free allocation live => exact invariant_free inv live
  | freeNull => exact inv
  | write headers confined => exact invariant_write inv confined

theorem invariant_run {totalSize : Nat} {headers : Nat → BlockHeader} {session : Session}
    (large : 2 * sizeofBlockHeader ≤ totalSize)
    (run : ReflTransGen Session.Step (Session.start totalSize headers) session) :
    session.Invariant totalSize := by
  have keeps : ∀ s s' : Session, s.Invariant totalSize → s.Step s' → s'.Invariant totalSize :=
    fun _ _ inv step => invariant_step large inv step
  exact Runs.preserved keeps run (invariant_start totalSize headers)

def Listed (pad : Scratchpad) (address : Nat) : Prop :=
  Reaches (fun a => (pad.headers a).next) pad.headBlock address

theorem Laid.listed_iff {pad : Scratchpad} {base : Nat} {blocks : List Block}
    (laid : Laid pad base blocks) (address : Nat) :
    pad.Listed address ↔ ∃ block ∈ blocks, block.address = address := by
  have reaches := Linked.reaches_iff laid.represents address
  simp only [List.map_map, List.mem_map, Function.comp_apply, Block.node] at reaches
  rw [← reaches, Listed, laid.head]
  rfl

structure Session.Safe (session : Session) : Prop where
  aligned : ∀ allocation ∈ session.live, allocation.fromHeap = false →
    allocation.pointer % 128 = 0
  roomy : ∀ allocation ∈ session.live, allocation.fromHeap = false →
    allocation.requested ≤ session.pad.capacity allocation.pointer
  inside : ∀ allocation ∈ session.live, allocation.fromHeap = false →
    ∃ base, session.pad.memoryBuffer = some base ∧
      base + sizeofBlockHeader ≤ allocation.pointer ∧
      allocation.pointer + session.pad.capacity allocation.pointer ≤
        base + session.pad.totalSize
  payloads : session.live.Pairwise fun left right =>
    Apart (session.pad.payload left) (session.pad.payload right)
  headers : ∀ allocation ∈ session.live, ∀ address, session.pad.Listed address →
    Apart (address, sizeofBlockHeader) (session.pad.payload allocation)

theorem arena_pointers_distinct {pad : Scratchpad} {live : List Allocation} {base : Nat}
    {blocks : List Block} (fits : Matches pad live base blocks) :
    live.Pairwise fun left right => left.fromHeap = false → right.fromHeap = false →
      left.pointer ≠ right.pointer := by
  have nodup : (arenaPointers live).Nodup :=
    fits.pointers.nodup_iff.mpr fits.laid.payload_nodup
  have filtered := List.pairwise_filter.mp (List.pairwise_map.mp nodup)
  exact filtered.imp fun distinct left right => distinct (by simp [left]) (by simp [right])

theorem payloads_apart {pad : Scratchpad} {live : List Allocation} {base : Nat}
    {blocks : List Block} (fits : Matches pad live base blocks) (heap : HeapKept pad live) :
    live.Pairwise fun left right => Apart (pad.payload left) (pad.payload right) := by
  have mixed : ∀ left ∈ live, ∀ right ∈ live, left.fromHeap = true → right.fromHeap = false →
      Apart (pad.payload left) (pad.payload right) := by
    intro left leftMember right rightMember leftKind rightKind
    obtain ⟨block, member, -, range⟩ := fits.block rightMember rightKind
    have inside := fits.laid.tiled.inside (mem_occupied.mp member).1
    have outside := (heap.outside left leftMember leftKind).2 base fits.laid.buffer
    rw [range]
    simp only [payload, leftKind, if_true, Apart, Block.payload] at *
    omega
  refine ((arena_pointers_distinct fits).and heap.apart).imp_of_mem ?_
  intro left right leftMember rightMember facts
  obtain ⟨distinct, heapApart⟩ := facts
  cases leftKind : left.fromHeap <;> cases rightKind : right.fromHeap
  · obtain ⟨leftBlock, leftInside, leftSame, leftRange⟩ := fits.block leftMember leftKind
    obtain ⟨rightBlock, rightInside, rightSame, rightRange⟩ := fits.block rightMember rightKind
    have different : leftBlock ≠ rightBlock := by
      rintro rfl
      exact distinct leftKind rightKind (leftSame.symm.trans rightSame)
    have apart := fits.laid.tiled.apart (mem_occupied.mp leftInside).1
      (mem_occupied.mp rightInside).1 different
    rw [leftRange, rightRange]
    simp only [Apart, Block.extent, Block.payload] at *
    omega
  · exact symm (mixed right rightMember left leftMember rightKind leftKind)
  · exact mixed left leftMember right rightMember leftKind rightKind
  · simpa [payload, leftKind, rightKind] using heapApart leftKind rightKind

theorem safe_of_invariant {totalSize : Nat} {session : Session}
    (inv : session.Invariant totalSize) : session.Safe := by
  cases inv.arena with
  | absent buffer head empty =>
    have none : ∀ allocation ∈ session.live, allocation.fromHeap ≠ false := by
      intro allocation member kind
      have known := mem_arenaPointers member kind
      simp [empty] at known
    refine ⟨fun a m k => absurd k (none a m), fun a m k => absurd k (none a m),
      fun a m k => absurd k (none a m), ?_, ?_⟩
    · refine inv.heap.apart.imp_of_mem ?_
      intro left right leftMember rightMember apart
      have leftKind := eq_true_of_ne_false (none left leftMember)
      have rightKind := eq_true_of_ne_false (none right rightMember)
      simpa [payload, leftKind, rightKind] using apart leftKind rightKind
    · intro allocation _ address listed
      rw [Listed, head] at listed
      cases listed
  | present base blocks fits =>
    refine ⟨?_, ?_, ?_, payloads_apart fits inv.heap, ?_⟩
    · intro allocation member kind
      obtain ⟨block, inside, same, -⟩ := fits.block member kind
      have aligned := fits.laid.tiled.aligned block (mem_occupied.mp inside).1
      simp only [← same, Block.payload, sizeofBlockHeader]
      omega
    · intro allocation member kind
      obtain ⟨block, inside, same, range⟩ := fits.block member kind
      have size : session.pad.capacity allocation.pointer = block.size := by
        simpa [payload, kind] using congrArg Prod.snd range
      rw [size]
      exact fits.requested allocation member kind block inside same
    · intro allocation member kind
      obtain ⟨block, inside, same, range⟩ := fits.block member kind
      have size : session.pad.capacity allocation.pointer = block.size := by
        simpa [payload, kind] using congrArg Prod.snd range
      have bound := fits.laid.tiled.inside (mem_occupied.mp inside).1
      refine ⟨base, fits.laid.buffer, ?_, ?_⟩
      · simp only [← same, Block.payload]
        omega
      · rw [size, ← same]
        exact bound.2
    · intro allocation member address listed
      obtain ⟨block, inside, rfl⟩ := (fits.laid.listed_iff address).mp listed
      exact header_apart fits inv.heap inside member

-- Coalescing rewrites the sizes of free blocks only.
theorem free_keeps_payload {totalSize : Nat} {session : Session}
    (inv : session.Invariant totalSize) {allocation other : Allocation}
    (member : allocation ∈ session.live) (remains : other ∈ session.live.erase allocation) :
    (session.pad.free (some allocation.pointer)).1.payload other = session.pad.payload other := by
  have after := invariant_free inv member
  have otherMember := List.mem_of_mem_erase remains
  cases otherKind : other.fromHeap with
  | true => simp [payload, otherKind]
  | false =>
    cases kind : allocation.fromHeap with
    | true =>
      have outside := (inv.heap.outside allocation member kind).1
      simp [free, outside]
    | false =>
      cases inv.arena with
      | absent buffer head empty =>
        have known := mem_arenaPointers member kind
        simp [empty] at known
      | present base blocks fits =>
        obtain ⟨block, inside, same, -⟩ := fits.block member kind
        obtain ⟨before, rest, rfl⟩ := List.append_of_mem (mem_occupied.mp inside).1
        obtain ⟨-, -, laid⟩ := free_laid fits.laid
        rw [same] at laid
        obtain ⟨chosen, chosenInside, chosenSame, chosenRange⟩ := fits.block otherMember otherKind
        have different : chosen ≠ block := by
          rintro rfl
          have nodup : (arenaPointers session.live).Nodup :=
            fits.pointers.nodup_iff.mpr fits.laid.payload_nodup
          have split := (arenaPointers_erase member).nodup_iff.mp nodup
          have single : arenaPointers [allocation] = [allocation.pointer] := by
            simp [arenaPointers, kind]
          rw [single, List.singleton_append] at split
          refine (List.nodup_cons.mp split).1 ?_
          rw [← same, chosenSame]
          exact mem_arenaPointers remains otherKind
        have taken : block.isFree = false := (mem_occupied.mp inside).2
        have old : occupied (before ++ block :: rest) =
            occupied before ++ block :: occupied rest := by simp [taken]
        have kept : chosen ∈ occupied (released before block rest) := by
          rw [occupied_released]
          rw [old] at chosenInside
          simp only [List.mem_append, List.mem_cons, different, false_or] at chosenInside ⊢
          exact chosenInside
        obtain ⟨left, right, shape⟩ := List.append_of_mem (mem_occupied.mp kept).1
        have header := (shape ▸ laid.represents).header
        have address : other.pointer - sizeofBlockHeader = chosen.address := by
          rw [← chosenSame]
          simp [Block.payload]
        rw [chosenRange]
        simp [payload, otherKind, capacity, address, header, chosenSame]

-- Over any run of alloc, free and caller writes from an uninitialised arena of at least two
-- headers, every live allocation is aligned, roomy, inside the arena and apart from all others
-- and from the header list, and a free moves no other payload.
theorem scratchpad_safe {totalSize : Nat} {headers : Nat → BlockHeader} {session : Session}
    (large : 2 * sizeofBlockHeader ≤ totalSize)
    (run : ReflTransGen Session.Step (Session.start totalSize headers) session) :
    session.Safe ∧
      ∀ allocation ∈ session.live, ∀ other ∈ session.live.erase allocation,
        (session.pad.free (some allocation.pointer)).1.payload other =
          session.pad.payload other := by
  have inv := invariant_run large run
  exact ⟨safe_of_invariant inv, fun allocation member other remains =>
    free_keeps_payload inv member remains⟩

-- One allocation of 100 bytes in an arena of 1024 bytes at address 4096.
def sampleMemory : SystemMemory := ⟨false, none, some 4096, none⟩

def sampleSession : Session where
  pad :=
    { memoryBuffer := some 4096
      totalSize := 1024
      headBlock := some 4096
      headers := takeBlock
        (Function.update (fun _ => ⟨0, false, none, none⟩) 4096 (initialHeader 1024)) 4096 128 }
  live := [⟨4224, 100, false⟩]

theorem sound_sample {session : Session}
    (arena : ∀ allocation ∈ session.live, allocation.fromHeap = false) (size : Nat) :
    Sound sampleMemory session size := by
  refine ⟨?_, ?_, by simp [sampleMemory]⟩
  · intro base source
    have same : 4096 = base := Option.some.inj source
    omega
  · intro allocation member heap
    rw [arena allocation member] at heap
    contradiction

theorem sample_run :
    ReflTransGen Session.Step (Session.start 1024 fun _ => ⟨0, false, none, none⟩)
      sampleSession :=
  .tail .refl (.alloc _ 100 sampleMemory ⟨some 4224, false⟩ _ (by decide)
    (sound_sample (by simp [Session.start]) 100) rfl)

def Session.allocated (session : Session) (size : Nat) (system : SystemMemory) : Session :=
  match session.pad.alloc size system with
  | some (result, pad) => ⟨pad, remember session.live size result⟩
  | none => session

def Session.freed (session : Session) (allocation : Allocation) : Session :=
  ⟨(session.pad.free (some allocation.pointer)).1, session.live.erase allocation⟩

theorem Session.run_allocated {start session : Session} {size : Nat} {system : SystemMemory}
    (run : ReflTransGen Step start session) (small : size + 127 < 2 ^ 64)
    (sound : Sound system session size) :
    ReflTransGen Step start (session.allocated size system) := by
  unfold allocated
  split
  case h_1 result pad call => exact run.tail (.alloc session size system result pad small sound call)
  case h_2 => exact run

-- Two more allocations, the middle one freed and its block taken again, the first one freed.
def reusedSession : Session :=
  let session := (sampleSession.allocated 200 sampleMemory).allocated 50 sampleMemory
  let session := (session.freed ⟨4480, 200, false⟩).allocated 60 sampleMemory
  session.freed ⟨4224, 100, false⟩

example : reusedSession.live = [⟨4480, 60, false⟩, ⟨4864, 50, false⟩] := rfl

theorem reused_run :
    ReflTransGen Session.Step (Session.start 1024 fun _ => ⟨0, false, none, none⟩)
      reusedSession := by
  have second := Session.run_allocated sample_run (by decide : 200 + 127 < 2 ^ 64)
    (sound_sample (by decide) 200)
  have third := Session.run_allocated second (by decide : 50 + 127 < 2 ^ 64)
    (sound_sample (by decide) 50)
  have middle := third.tail (.free _ ⟨4480, 200, false⟩ (by decide))
  have again := Session.run_allocated middle (by decide : 60 + 127 < 2 ^ 64)
    (sound_sample (by decide) 60)
  exact again.tail (.free _ ⟨4224, 100, false⟩ (by decide))

theorem scratchpad_safe_sample :
    reusedSession.Safe ∧
      ∀ allocation ∈ reusedSession.live, ∀ other ∈ reusedSession.live.erase allocation,
        (reusedSession.pad.free (some allocation.pointer)).1.payload other =
          reusedSession.pad.payload other :=
  scratchpad_safe (by decide) reused_run

end NpuMatmul.Scratchpad
