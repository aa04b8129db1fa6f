import NpuMatmul.Memory.FreeRefinement
import NpuMatmul.Shared.Runs

set_option autoImplicit false

namespace NpuMatmul.Scratchpad

open LinkedHeap Tiling

structure Allocation where
  pointer : Nat
  requested : Nat
  fromHeap : Bool
deriving DecidableEq, Repr

structure Session where
  pad : Scratchpad
  live : List Allocation

def Session.start (totalSize : Nat) (headers : Nat → BlockHeader) : Session :=
  { pad := { totalSize := totalSize, headers := headers }, live := [] }

def capacity (pad : Scratchpad) (pointer : Nat) : Nat :=
  (pad.headers (pointer - sizeofBlockHeader)).size

-- The bytes the caller may use: the whole block in the arena, the rounded size on the heap.
def payload (pad : Scratchpad) (allocation : Allocation) : Nat × Nat :=
  (allocation.pointer,
    if allocation.fromHeap then alignUp allocation.requested
    else pad.capacity allocation.pointer)

def Outside (pad : Scratchpad) (allocation : Allocation) : Prop :=
  pad.owns allocation.pointer = false ∧
    ∀ base, pad.memoryBuffer = some base →
      Apart (allocation.pointer, alignUp allocation.requested) (base, pad.totalSize)

-- What rpcmem_alloc and posix_memalign promise: aligned memory that overlaps nothing in use.
structure Sound (system : SystemMemory) (session : Session) (size : Nat) : Prop where
  aligned : ∀ base, arenaSource system = some base → base % 128 = 0
  arena : ∀ allocation ∈ session.live, allocation.fromHeap = true →
    Outside (session.pad.initializeIfNeeded system) allocation
  request : ∀ pointer, system.posixMemalign = some pointer →
    Outside (session.pad.initializeIfNeeded system) ⟨pointer, size, true⟩ ∧
      ∀ allocation ∈ session.live, allocation.fromHeap = true →
        Apart (pointer, alignUp size) (allocation.pointer, alignUp allocation.requested)

def remember (live : List Allocation) (size : Nat) (result : AllocResult) : List Allocation :=
  match result.pointer with
  | none => live
  | some pointer => ⟨pointer, size, result.fromHeap⟩ :: live

inductive Session.Step : Session → Session → Prop
  | alloc (session : Session) (size : Nat) (system : SystemMemory) (result : AllocResult)
      (pad : Scratchpad) (small : size + 127 < 2 ^ 64) (sound : Sound system session size)
      (call : session.pad.alloc size system = some (result, pad)) :
      Step session ⟨pad, remember session.live size result⟩
  | free (session : Session) (allocation : Allocation) (live : allocation ∈ session.live) :
      Step session
        ⟨(session.pad.free (some allocation.pointer)).1, session.live.erase allocation⟩
  | freeNull (session : Session) : Step session ⟨(session.pad.free none).1, session.live⟩
  -- The caller writes into its payloads; a header not overlapped by one keeps its contents.
  | write (session : Session) (headers : Nat → BlockHeader)
      (confined : ∀ address, (∀ allocation ∈ session.live,
        Apart (address, sizeofBlockHeader) (session.pad.payload allocation)) →
          headers address = session.pad.headers address) :
      Step session ⟨{ session.pad with headers := headers }, session.live⟩

def arenaPointers (live : List Allocation) : List Nat :=
  (live.filter fun allocation => !allocation.fromHeap).map Allocation.pointer

structure Matches (pad : Scratchpad) (live : List Allocation) (base : Nat) (blocks : List Block) :
    Prop where
  laid : Laid pad base blocks
  pointers : (arenaPointers live).Perm ((occupied blocks).map Block.payload)
  requested : ∀ allocation ∈ live, allocation.fromHeap = false →
    ∀ block ∈ occupied blocks, block.payload = allocation.pointer →
      allocation.requested ≤ block.size

structure HeapKept (pad : Scratchpad) (live : List Allocation) : Prop where
  outside : ∀ allocation ∈ live, allocation.fromHeap = true → Outside pad allocation
  apart : live.Pairwise fun left right => left.fromHeap = true → right.fromHeap = true →
    Apart (left.pointer, alignUp left.requested) (right.pointer, alignUp right.requested)

inductive ArenaKept (pad : Scratchpad) (live : List Allocation) : Prop
  | absent (buffer : pad.memoryBuffer = none) (head : pad.headBlock = none)
      (heap : arenaPointers live = [])
  | present (base : Nat) (blocks : List Block) (fits : Matches pad live base blocks)

structure Session.Invariant (totalSize : Nat) (session : Session) : Prop where
  size : session.pad.totalSize = totalSize
  heap : HeapKept session.pad session.live
  arena : ArenaKept session.pad session.live

theorem invariant_start (totalSize : Nat) (headers : Nat → BlockHeader) :
    (Session.start totalSize headers).Invariant totalSize :=
  ⟨rfl, ⟨by simp [Session.start], List.Pairwise.nil⟩, .absent rfl rfl rfl⟩

theorem laid_initial {pad : Scratchpad} {system : SystemMemory} {base : Nat}
    (large : 2 * sizeofBlockHeader ≤ pad.totalSize) (fresh : pad.memoryBuffer = none)
    (source : arenaSource system = some base) (aligned : base % 128 = 0) :
    Laid (pad.initializeIfNeeded system) base
      [⟨base, pad.totalSize - sizeofBlockHeader, true⟩] := by
  have ready : pad.initializeIfNeeded system =
      { pad with
        memoryBuffer := some base
        headBlock := some base
        headers := Function.update pad.headers base (initialHeader pad.totalSize) } := by
    simp [initializeIfNeeded, fresh, source]
  rw [ready]
  refine ⟨rfl, rfl, ?_, ⟨?_, ?_, ?_⟩, List.isChain_singleton _⟩
  · exact represents_cons.mpr ⟨Function.update_self _ _ _, trivial⟩
  · refine ⟨rfl, ?_⟩
    change base + (sizeofBlockHeader + (pad.totalSize - sizeofBlockHeader)) = base + pad.totalSize
    simp only [sizeofBlockHeader] at *
    omega
  · intro block member
    rw [List.mem_singleton.mp member]
    exact aligned
  · intro block member
    rw [List.mem_singleton.mp member]
    change base + sizeofBlockHeader < base + pad.totalSize
    simp only [sizeofBlockHeader] at *
    omega

theorem initializeIfNeeded_totalSize (pad : Scratchpad) (system : SystemMemory) :
    (pad.initializeIfNeeded system).totalSize = pad.totalSize := by
  unfold initializeIfNeeded
  split <;> rfl

theorem arenaKept_initialize {pad : Scratchpad} {live : List Allocation} {system : SystemMemory}
    (large : 2 * sizeofBlockHeader ≤ pad.totalSize) (kept : ArenaKept pad live)
    (aligned : ∀ base, arenaSource system = some base → base % 128 = 0) :
    ArenaKept (pad.initializeIfNeeded system) live := by
  cases kept with
  | absent buffer head heap =>
    cases source : arenaSource system with
    | none =>
      have same : pad.initializeIfNeeded system = pad := by
        simp [initializeIfNeeded, buffer, source]
      rw [same]
      exact .absent buffer head heap
    | some base =>
      refine .present base _ ⟨laid_initial large buffer source (aligned base source), ?_, ?_⟩
      · simp [heap]
      · intro allocation _ _ block member
        simp at member
  | present base blocks fits =>
    have same : pad.initializeIfNeeded system = pad := by
      simp [initializeIfNeeded, fits.laid.buffer]
    rw [same]
    exact .present base blocks fits

theorem initialize_idempotent (pad : Scratchpad) (system : SystemMemory) :
    (pad.initializeIfNeeded system).initializeIfNeeded system = pad.initializeIfNeeded system := by
  unfold initializeIfNeeded
  cases buffer : pad.memoryBuffer <;> cases source : arenaSource system <;> simp [buffer]

theorem alloc_initialize (pad : Scratchpad) (size : Nat) (system : SystemMemory) :
    (pad.initializeIfNeeded system).alloc size system = pad.alloc size system := by
  simp only [alloc, initialize_idempotent]

theorem alloc_absent {pad : Scratchpad} {size : Nat} {system : SystemMemory}
    (head : (pad.initializeIfNeeded system).headBlock = none) :
    pad.alloc size system =
      some (⟨system.posixMemalign, true⟩, pad.initializeIfNeeded system) := by
  simp [alloc, head, findBlock]

theorem arenaPointers_arena (pointer size : Nat) (live : List Allocation) :
    arenaPointers (⟨pointer, size, false⟩ :: live) = pointer :: arenaPointers live := rfl

theorem mem_arenaPointers {live : List Allocation} {allocation : Allocation}
    (member : allocation ∈ live) (arena : allocation.fromHeap = false) :
    allocation.pointer ∈ arenaPointers live :=
  List.mem_map_of_mem (List.mem_filter.mpr ⟨member, by simp [arena]⟩)

theorem arenaPointers_erase {live : List Allocation} {allocation : Allocation}
    (member : allocation ∈ live) :
    (arenaPointers live).Perm
      (arenaPointers [allocation] ++ arenaPointers (live.erase allocation)) := by
  have split := (List.perm_cons_erase member).filter fun entry => !entry.fromHeap
  have mapped := split.map Allocation.pointer
  cases heap : allocation.fromHeap <;> simpa [arenaPointers, heap] using mapped

theorem Laid.payload_nodup {pad : Scratchpad} {base : Nat} {blocks : List Block}
    (laid : Laid pad base blocks) : ((occupied blocks).map Block.payload).Nodup := by
  have addresses : ((occupied blocks).map Block.address).Nodup :=
    laid.tiled.nodup.sublist ((List.filter_sublist).map _)
  have shifted : (occupied blocks).map Block.payload =
      ((occupied blocks).map Block.address).map (· + sizeofBlockHeader) := by
    simp [Block.payload]
  rw [shifted]
  exact addresses.map fun left right same => Nat.add_right_cancel same

theorem Matches.block {pad : Scratchpad} {live : List Allocation} {base : Nat}
    {blocks : List Block} (fits : Matches pad live base blocks) {allocation : Allocation}
    (member : allocation ∈ live) (arena : allocation.fromHeap = false) :
    ∃ block ∈ occupied blocks, block.payload = allocation.pointer ∧
      pad.payload allocation = (block.payload, block.size) := by
  have known := fits.pointers.subset (mem_arenaPointers member arena)
  obtain ⟨block, inside, same⟩ := List.mem_map.mp known
  refine ⟨block, inside, same, ?_⟩
  obtain ⟨before, after, rfl⟩ := List.append_of_mem (mem_occupied.mp inside).1
  have header := fits.laid.represents.header
  have address : allocation.pointer - sizeofBlockHeader = block.address := by
    rw [← same]
    simp [Block.payload]
  simp [payload, arena, capacity, address, header, same]

theorem outside_congr {pad pad' : Scratchpad} (buffer : pad'.memoryBuffer = pad.memoryBuffer)
    (size : pad'.totalSize = pad.totalSize) (allocation : Allocation) :
    Outside pad' allocation ↔ Outside pad allocation := by
  simp [Outside, owns, buffer, size]

theorem HeapKept.congr {pad pad' : Scratchpad} {live : List Allocation}
    (kept : HeapKept pad live) (buffer : pad'.memoryBuffer = pad.memoryBuffer)
    (size : pad'.totalSize = pad.totalSize) : HeapKept pad' live :=
  ⟨fun allocation member heap =>
    (outside_congr buffer size allocation).mpr (kept.outside allocation member heap), kept.apart⟩

theorem HeapKept.remember_heap {pad : Scratchpad} {live : List Allocation} {pointer size : Nat}
    (kept : HeapKept pad live) (outside : Outside pad ⟨pointer, size, true⟩)
    (fresh : ∀ allocation ∈ live, allocation.fromHeap = true →
      Apart (pointer, alignUp size) (allocation.pointer, alignUp allocation.requested)) :
    HeapKept pad (⟨pointer, size, true⟩ :: live) := by
  refine ⟨?_, List.Pairwise.cons ?_ kept.apart⟩
  · intro allocation member heap
    rcases List.mem_cons.mp member with rfl | later
    · exact outside
    · exact kept.outside allocation later heap
  · intro allocation member _ heap
    exact fresh allocation member heap

theorem HeapKept.remember_arena {pad : Scratchpad} {live : List Allocation} {pointer size : Nat}
    (kept : HeapKept pad live) : HeapKept pad (⟨pointer, size, false⟩ :: live) := by
  refine ⟨?_, List.Pairwise.cons ?_ kept.apart⟩
  · intro allocation member heap
    rcases List.mem_cons.mp member with rfl | later
    · simp at heap
    · exact kept.outside allocation later heap
  · intro allocation _ arena
    simp at arena

theorem HeapKept.erase {pad : Scratchpad} {live : List Allocation} (kept : HeapKept pad live)
    (allocation : Allocation) : HeapKept pad (live.erase allocation) :=
  ⟨fun other member => kept.outside other (List.mem_of_mem_erase member),
    kept.apart.sublist List.erase_sublist⟩

theorem header_apart {pad : Scratchpad} {live : List Allocation} {base : Nat}
    {blocks : List Block} (fits : Matches pad live base blocks) (heap : HeapKept pad live)
    {block : Block} (member : block ∈ blocks) {allocation : Allocation}
    (liveMember : allocation ∈ live) :
    Apart (block.address, sizeofBlockHeader) (pad.payload allocation) := by
  have inside := fits.laid.tiled.inside member
  cases kind : allocation.fromHeap with
  | true =>
    have outside := (heap.outside allocation liveMember kind).2 base fits.laid.buffer
    simp only [payload, kind, if_true, Apart, Block.payload] at *
    omega
  | false =>
    obtain ⟨other, otherMember, -, payload⟩ := fits.block liveMember kind
    rw [payload]
    by_cases same : block = other
    · subst same
      simp [Apart, Block.payload]
    · have apart := fits.laid.tiled.apart member (mem_occupied.mp otherMember).1 same
      simp only [Apart, Block.extent, Block.payload] at *
      omega

end NpuMatmul.Scratchpad
