import NpuMatmul.Memory.ScratchpadSafety
import NpuMatmul.Shared.Ownership

set_option autoImplicit false

namespace NpuMatmul.Scratchpad

open LinkedHeap Tiling Relation Ownership

inductive Event where
  | rpcmemAlloc (base : Nat)
  | rpcmemFree (pointer : Nat)
  | rpcmemToFd (pointer : Nat)
  | posixMemalign (base : Nat)
  | heapFree (pointer : Nat)
  | handOut (pointer : Nat)
  | editHeaders (pointer : Nat)
  | dropArena
deriving DecidableEq, Repr

inductive Origin where
  | rpcmem (base : Nat)
  | posix (base : Nat)
  | arena (pointer : Nat)
deriving DecidableEq, Repr

def Event.makes : Event → Origin → Prop
  | .rpcmemAlloc base, .rpcmem other => base = other
  | .posixMemalign base, .posix other => base = other
  | .handOut pointer, .arena other => pointer = other
  | _, _ => False

def Event.ends : Event → Origin → Prop
  | .rpcmemFree pointer, .rpcmem other => pointer = other
  | .heapFree pointer, .posix other => pointer = other
  | .editHeaders pointer, .arena other => pointer = other
  | .dropArena, .arena _ => True
  | _, _ => False

def provenance : Ledger Event Origin where
  makes := Event.makes
  ends := Event.ends
  apart event origin made := by
    cases event <;> cases origin <;> simp_all [Event.makes, Event.ends]

-- Each release goes back the way the memory came, and only while it is out.
def GoesBack (past : List Event) : Event → Prop
  | .rpcmemFree pointer | .rpcmemToFd pointer => Held provenance past (.rpcmem pointer)
  | .heapFree pointer => Held provenance past (.posix pointer)
  | .editHeaders pointer => Held provenance past (.arena pointer)
  | _ => True

def acquired (pad : Scratchpad) (system : SystemMemory) : List Event :=
  match pad.memoryBuffer, (if system.rpcmemLoaded then system.rpcmemAlloc else none),
    system.arenaMemalign with
  | none, some base, _ => [.rpcmemAlloc base]
  | none, none, some base => [.posixMemalign base]
  | _, _, _ => []

def handed (result : AllocResult) : List Event :=
  match result.pointer, result.fromHeap with
  | none, _ => []
  | some pointer, true => [.posixMemalign pointer]
  | some pointer, false => [.handOut pointer]

def freeEvents (pad : Scratchpad) (pointer : Nat) : List Event :=
  match (pad.free (some pointer)).2 with
  | some address => [.heapFree address]
  | none => [.editHeaders pointer]

def setSize (pad : Scratchpad) (newSize : Nat) : Scratchpad :=
  { pad with memoryBuffer := none, headBlock := none, totalSize := newSize }

-- An arena is given back by what rpcmem_loaded says now.
def setSizeEvents (pad : Scratchpad) (rpcmemLoaded : Bool) : List Event :=
  match pad.memoryBuffer with
  | none => []
  | some base =>
      [.dropArena, if rpcmemLoaded then .rpcmemFree base else .heapFree base]

def getFdAndOffset (pad : Scratchpad) (pointer : Nat) (rpcmemLoaded : Bool) : Nat × Option Nat :=
  match pad.memoryBuffer with
  | none => (0, none)
  | some base =>
      if rpcmemLoaded && pad.owns pointer then ((pointer - base) % 2 ^ 32, some base) else (0, none)

def fdEvents (pad : Scratchpad) (pointer : Nat) (rpcmemLoaded : Bool) : List Event :=
  match (pad.getFdAndOffset pointer rpcmemLoaded).2 with
  | some base => [.rpcmemToFd base]
  | none => []

-- The bytes behind an arena: as many as rpcmem_alloc was asked for, or total_size.
def arenaBytes (pad : Scratchpad) (fromRpcmem : Bool) : Nat :=
  if fromRpcmem then (rpcmemBytes pad.totalSize).toNat else pad.totalSize

def OutsideBuffer (pad : Scratchpad) (bytes : Nat) (allocation : Allocation) : Prop :=
  ∀ base, pad.memoryBuffer = some base →
    (allocation.pointer < base ∨ base + bytes ≤ allocation.pointer) ∧
      Apart (allocation.pointer, alignUp allocation.requested) (base, bytes)

-- What the platform promises of the bytes it was asked for.
structure Granted (system : SystemMemory) (session : Session) (size bytes : Nat) : Prop where
  aligned : ∀ base, arenaSource system = some base → base % 128 = 0
  arena : ∀ allocation ∈ session.live, allocation.fromHeap = true →
    OutsideBuffer (session.pad.initializeIfNeeded system) bytes allocation
  request : ∀ pointer, system.posixMemalign = some pointer →
    OutsideBuffer (session.pad.initializeIfNeeded system) bytes ⟨pointer, size, true⟩ ∧
      ∀ allocation ∈ session.live, allocation.fromHeap = true →
        Apart (pointer, alignUp size) (allocation.pointer, alignUp allocation.requested)

-- A session with what set_size left behind: dropped are the arena allocations that were live when
-- their arena went. arenaFromRpcmem says where the current arena came from.
structure Holding where
  session : Session
  dropped : List Allocation
  arenaFromRpcmem : Bool
  events : List Event

def Holding.start (totalSize : Nat) (headers : Nat → BlockHeader) : Holding :=
  { session := .start totalSize headers, dropped := [], arenaFromRpcmem := false, events := [] }

def Holding.servedByRpcmem (held : Holding) (system : SystemMemory) : Bool :=
  if held.session.pad.memoryBuffer.isSome then held.arenaFromRpcmem
  else system.rpcmemLoaded && system.rpcmemAlloc.isSome

inductive PadRequest where
  | alloc (size : Nat) (system : SystemMemory)
  | free (allocation : Allocation)
  | freeDropped (allocation : Allocation)
  | freeNull
  | write (headers : Nat → BlockHeader)
  | setSize (newSize : Nat)
  | getFdAndOffset (pointer : Nat)

def inArena (allocation : Allocation) : Bool := !allocation.fromHeap

-- rpcmemLoaded is what load_rpcmem_once settled, once and for all. A size that overflows the
-- rounding is remembered as the rounded size, which is what the block has room for.
inductive Holding.Step (rpcmemLoaded : Bool) : Holding → PadRequest → Holding → Prop
  | alloc (held : Holding) (size : Nat) (system : SystemMemory) (result : AllocResult)
      (pad : Scratchpad) (loaded : system.rpcmemLoaded = rpcmemLoaded)
      (granted : Granted system held.session (alignUp size)
        (held.session.pad.arenaBytes (held.servedByRpcmem system)))
      (distinct : ∀ pointer, system.posixMemalign = some pointer →
        ∀ allocation ∈ held.session.live, allocation.fromHeap = true →
          allocation.pointer ≠ pointer)
      (call : held.session.pad.alloc size system = some (result, pad)) :
      Step rpcmemLoaded held (.alloc size system)
        { held with
          session := ⟨pad, remember held.session.live (alignUp size) result⟩
          arenaFromRpcmem := held.servedByRpcmem system
          events := handed result ++ (acquired held.session.pad system ++ held.events) }
  | free (held : Holding) (allocation : Allocation) (live : allocation ∈ held.session.live) :
      Step rpcmemLoaded held (.free allocation)
        { held with
          session := ⟨(held.session.pad.free (some allocation.pointer)).1,
            held.session.live.erase allocation⟩
          events := held.session.pad.freeEvents allocation.pointer ++ held.events }
  | freeDropped (held : Holding) (allocation : Allocation) (dropped : allocation ∈ held.dropped) :
      Step rpcmemLoaded held (.freeDropped allocation)
        { held with
          session := ⟨(held.session.pad.free (some allocation.pointer)).1, held.session.live⟩
          dropped := held.dropped.erase allocation
          events := held.session.pad.freeEvents allocation.pointer ++ held.events }
  | freeNull (held : Holding) :
      Step rpcmemLoaded held .freeNull
        { held with session := ⟨(held.session.pad.free none).1, held.session.live⟩ }
  | write (held : Holding) (headers : Nat → BlockHeader)
      (confined : ∀ address, (∀ allocation ∈ held.session.live,
        Apart (address, sizeofBlockHeader) (held.session.pad.payload allocation)) →
          headers address = held.session.pad.headers address) :
      Step rpcmemLoaded held (.write headers)
        { held with
          session := ⟨{ held.session.pad with headers := headers }, held.session.live⟩ }
  | setSize (held : Holding) (newSize : Nat) (large : 2 * sizeofBlockHeader ≤ newSize) :
      Step rpcmemLoaded held (.setSize newSize)
        { session := ⟨held.session.pad.setSize newSize,
            held.session.live.filter fun allocation => !inArena allocation⟩
          dropped := held.session.live.filter inArena ++ held.dropped
          arenaFromRpcmem := held.arenaFromRpcmem
          events := held.session.pad.setSizeEvents rpcmemLoaded ++ held.events }
  | getFdAndOffset (held : Holding) (pointer : Nat) :
      Step rpcmemLoaded held (.getFdAndOffset pointer)
        { held with
          events := held.session.pad.fdEvents pointer rpcmemLoaded ++ held.events }

-- No pointer of a dropped arena is freed, rpcmem_alloc is asked for no arena that its int cannot
-- size, and while rpcmem is loaded an arena that came from posix_memalign is neither resized nor
-- asked for its descriptor.
def Careful (rpcmemLoaded : Bool) (held : Holding) : PadRequest → Prop
  | .alloc _ system =>
      held.servedByRpcmem system = true → held.session.pad.totalSize < 2 ^ 31
  | .freeDropped _ => False
  | .setSize _ =>
      held.session.pad.memoryBuffer.isSome → rpcmemLoaded = true → held.arenaFromRpcmem = true
  | .getFdAndOffset pointer =>
      held.session.pad.owns pointer = true → rpcmemLoaded = true → held.arenaFromRpcmem = true
  | _ => True

def Holding.CarefulStep (rpcmemLoaded : Bool) (held next : Holding) : Prop :=
  ∃ request, Careful rpcmemLoaded held request ∧ held.Step rpcmemLoaded request next

def Holding.AnyStep (rpcmemLoaded : Bool) (held next : Holding) : Prop :=
  ∃ request, held.Step rpcmemLoaded request next

def arenaOrigin (held : Holding) (base : Nat) : Origin :=
  if held.arenaFromRpcmem then .rpcmem base else .posix base

structure Holding.Kept (rpcmemLoaded : Bool) (held : Holding) : Prop where
  large : 2 * sizeofBlockHeader ≤ held.session.pad.totalSize
  session : held.session.Invariant held.session.pad.totalSize
  distinct : held.session.live.Pairwise fun left right =>
    left.fromHeap = true → right.fromHeap = true → left.pointer ≠ right.pointer
  loaded : held.session.pad.memoryBuffer.isSome → held.arenaFromRpcmem = true →
    rpcmemLoaded = true
  sized : held.session.pad.memoryBuffer.isSome → held.arenaFromRpcmem = true →
    held.session.pad.totalSize < 2 ^ 31
  base : ∀ base, held.session.pad.memoryBuffer = some base →
    Held provenance held.events (arenaOrigin held base)
  heap : ∀ allocation ∈ held.session.live, allocation.fromHeap = true →
    Held provenance held.events (.posix allocation.pointer)
  blocks : ∀ allocation ∈ held.session.live, allocation.fromHeap = false →
    Held provenance held.events (.arena allocation.pointer)
  goesBack : Always GoesBack held.events

section Alloc

variable {pad next : Scratchpad} {size : Nat} {system : SystemMemory} {result : AllocResult}

theorem alignUp_small (size : Nat) : alignUp size + 127 < 2 ^ 64 := by
  have below : (size + 127) % 2 ^ 64 < 2 ^ 64 := Nat.mod_lt _ (by decide)
  unfold alignUp
  omega

theorem alignUp_alignUp (size : Nat) : alignUp (alignUp size) = alignUp size := by
  have aligned := alignUp_aligned size
  rw [alignUp, Nat.mod_eq_of_lt (alignUp_small size)]
  omega

theorem alloc_alignUp (pad : Scratchpad) (size : Nat) (system : SystemMemory) :
    pad.alloc (alignUp size) system = pad.alloc size system := by
  simp only [alloc, alignUp_alignUp]

theorem alloc_fields (call : pad.alloc size system = some (result, next)) :
    next.memoryBuffer = (pad.initializeIfNeeded system).memoryBuffer ∧
      (result.fromHeap = true → result.pointer = system.posixMemalign) := by
  simp only [alloc] at call
  split at call
  · cases call
  · cases call
    exact ⟨rfl, fun _ => rfl⟩
  · cases call
    exact ⟨rfl, by simp⟩

theorem arenaBytes_small {fromRpcmem : Bool} (small : fromRpcmem = true → pad.totalSize < 2 ^ 31) :
    pad.arenaBytes fromRpcmem = pad.totalSize := by
  unfold arenaBytes
  split
  case isTrue rpcmem =>
    have below := small rpcmem
    have exactly : rpcmemBytes pad.totalSize = pad.totalSize := by
      simp only [rpcmemBytes, BitVec.toInt_eq_toNat_cond, BitVec.toNat_ofNat]
      omega
    rw [exactly, Int.toNat_natCast]
  case isFalse => rfl

theorem outside_buffer {allocation : Allocation}
    (outside : OutsideBuffer pad pad.totalSize allocation) : Outside pad allocation := by
  constructor
  · unfold owns
    cases buffer : pad.memoryBuffer with
    | none => rfl
    | some base =>
        have far := (outside base buffer).1
        simp only [Bool.and_eq_false_iff, decide_eq_false_iff_not]
        omega
  · exact fun base buffer => (outside base buffer).2

theorem Granted.sound {session : Session} (granted : Granted system session size
    session.pad.totalSize) : Sound system session size := by
  have total := initializeIfNeeded_totalSize session.pad system
  refine ⟨granted.aligned, ?_, ?_⟩
  · intro allocation member heap
    exact outside_buffer (total.symm ▸ granted.arena allocation member heap)
  · intro pointer present
    obtain ⟨outside, apart⟩ := granted.request pointer present
    exact ⟨outside_buffer (total.symm ▸ outside), apart⟩

structure Harmless (event : Event) : Prop where
  keeps : ∀ origin, ¬ provenance.ends event origin
  allowed : ∀ past, GoesBack past event

theorem handed_harmless {event : Event} (member : event ∈ handed result) : Harmless event := by
  unfold handed at member
  split at member
  · cases member
  all_goals
    rw [List.mem_singleton.mp member]
    exact ⟨fun origin => by cases origin <;> exact id, fun _ => trivial⟩

theorem acquired_harmless {event : Event} (member : event ∈ acquired pad system) :
    Harmless event := by
  unfold acquired at member
  split at member
  case h_3 => cases member
  all_goals
    rw [List.mem_singleton.mp member]
    exact ⟨fun origin => by cases origin <;> exact id, fun _ => trivial⟩

end Alloc

section Keeps

variable {rpcmemLoaded : Bool} {held : Holding}

theorem Holding.Kept.arena_base (kept : held.Kept rpcmemLoaded) {base : Nat}
    (buffer : held.session.pad.memoryBuffer = some base) :
    held.session.pad.owns base = true := by
  have large := kept.large
  simp only [owns, buffer, sizeofBlockHeader] at *
  simp
  omega

theorem Holding.Kept.freeEvents_arena (kept : held.Kept rpcmemLoaded) {allocation : Allocation}
    (live : allocation ∈ held.session.live) (arena : allocation.fromHeap = false) :
    held.session.pad.freeEvents allocation.pointer = [.editHeaders allocation.pointer] := by
  cases kept.session.arena with
  | absent buffer head empty =>
      have known := mem_arenaPointers live arena
      simp [empty] at known
  | present base blocks fits =>
      obtain ⟨block, inside, same, _⟩ := fits.block live arena
      obtain ⟨before, after, rfl⟩ := List.append_of_mem (mem_occupied.mp inside).1
      have edited := (free_laid fits.laid).1
      rw [same] at edited
      rw [freeEvents, edited]

theorem Holding.Kept.freeEvents_heap (kept : held.Kept rpcmemLoaded) {allocation : Allocation}
    (live : allocation ∈ held.session.live) (heap : allocation.fromHeap = true) :
    held.session.pad.freeEvents allocation.pointer = [.heapFree allocation.pointer] ∧
      (held.session.pad.free (some allocation.pointer)).1 = held.session.pad := by
  have outside := (kept.session.heap.outside allocation live heap).1
  simp [freeEvents, Scratchpad.free, outside]

theorem arenaOrigin_notMem {base : Nat} {event : Event}
    (heap : event ≠ .heapFree base) (rpcmem : event ≠ .rpcmemFree base) :
    ¬ provenance.ends event (arenaOrigin held base) := by
  unfold arenaOrigin
  split <;> cases event <;> simp_all [provenance, Event.ends]

theorem acquired_origin {pad : Scratchpad} {system : SystemMemory} {base : Nat}
    (absent : pad.memoryBuffer = none)
    (buffer : (pad.initializeIfNeeded system).memoryBuffer = some base) (past : List Event) :
    Held provenance (acquired pad system ++ past)
      (if system.rpcmemLoaded && system.rpcmemAlloc.isSome then .rpcmem base else .posix base) := by
  have source : arenaSource system = some base := by
    cases from_ : arenaSource system with
    | none => simp [initializeIfNeeded, absent, from_] at buffer
    | some other => simpa [initializeIfNeeded, absent, from_] using buffer
  unfold acquired
  rw [absent]
  cases loaded : system.rpcmemLoaded <;> cases rpcmem : system.rpcmemAlloc <;>
    cases memalign : system.arenaMemalign <;> simp_all [arenaSource] <;> exact Or.inl rfl

theorem remembered {P : Allocation → Prop} {live : List Allocation} {size : Nat}
    {result : AllocResult} (old : ∀ allocation ∈ live, P allocation)
    (new : ∀ pointer, result.pointer = some pointer → P ⟨pointer, size, result.fromHeap⟩) :
    ∀ allocation ∈ remember live size result, P allocation := by
  unfold remember
  cases present : result.pointer with
  | none => exact old
  | some pointer => exact List.forall_mem_cons.mpr ⟨new pointer present, old⟩

theorem remembered_distinct {live : List Allocation} {size : Nat} {result : AllocResult}
    (distinct : live.Pairwise fun left right =>
      left.fromHeap = true → right.fromHeap = true → left.pointer ≠ right.pointer)
    (new : ∀ pointer, result.pointer = some pointer → result.fromHeap = true →
      ∀ other ∈ live, other.fromHeap = true → pointer ≠ other.pointer) :
    (remember live size result).Pairwise fun left right =>
      left.fromHeap = true → right.fromHeap = true → left.pointer ≠ right.pointer := by
  unfold remember
  cases present : result.pointer with
  | none => exact distinct
  | some pointer =>
      exact distinct.cons fun other member fromHeap heap =>
        new pointer present fromHeap other member heap

theorem handed_origin {result : AllocResult} {pointer : Nat}
    (present : result.pointer = some pointer) (past : List Event) :
    Held provenance (handed result ++ past)
      (if result.fromHeap then .posix pointer else .arena pointer) := by
  unfold handed
  cases result.fromHeap <;> simp only [present] <;> exact Or.inl rfl

theorem Holding.Kept.alloc {size : Nat} {system : SystemMemory} {result : AllocResult}
    {pad : Scratchpad} (kept : held.Kept rpcmemLoaded)
    (loaded : system.rpcmemLoaded = rpcmemLoaded)
    (granted : Granted system held.session (alignUp size)
      (held.session.pad.arenaBytes (held.servedByRpcmem system)))
    (small : held.servedByRpcmem system = true → held.session.pad.totalSize < 2 ^ 31)
    (distinct : ∀ pointer, system.posixMemalign = some pointer →
      ∀ allocation ∈ held.session.live, allocation.fromHeap = true →
        allocation.pointer ≠ pointer)
    (call : held.session.pad.alloc size system = some (result, pad)) :
    Holding.Kept rpcmemLoaded
      { held with
        session := ⟨pad, remember held.session.live (alignUp size) result⟩
        arenaFromRpcmem := held.servedByRpcmem system
        events := handed result ++ (acquired held.session.pad system ++ held.events) } := by
  obtain ⟨buffer, fromPosix⟩ := alloc_fields call
  rw [arenaBytes_small small] at granted
  have sound := granted.sound
  have session := invariant_alloc kept.large kept.session (alignUp_small size) sound
    ((alloc_alignUp _ size system).trans call)
  have total : pad.totalSize = held.session.pad.totalSize := session.size
  have earlier {origin : Origin} (had : Held provenance held.events origin) :
      Held provenance (handed result ++ (acquired held.session.pad system ++ held.events))
        origin := by
    apply held_append fun event member => (handed_harmless member).keeps origin
    exact held_append (fun event member => (acquired_harmless member).keeps origin) had
  refine
    { large := total ▸ kept.large
      session := total ▸ session
      distinct := ?distinct
      loaded := ?loaded
      sized := fun _ rpcmem => total ▸ small rpcmem
      base := ?base
      heap := ?heap
      blocks := ?blocks
      goesBack := ?goesBack }
  case distinct =>
    refine remembered_distinct kept.distinct fun pointer present new other member heap => ?_
    have same : result.pointer = system.posixMemalign := fromPosix new
    exact (distinct pointer (same.symm.trans present) other member heap).symm
  case loaded =>
    intro present rpcmem
    dsimp only [Holding.servedByRpcmem] at present rpcmem
    split at rpcmem
    case isTrue before => exact kept.loaded before rpcmem
    case isFalse => exact loaded ▸ (Bool.and_eq_true_iff.mp rpcmem).1
  case base =>
    intro base present
    rw [buffer] at present
    cases before : held.session.pad.memoryBuffer with
    | some old =>
        have same : old = base := by simpa [initializeIfNeeded, before] using present
        rw [← same]
        simpa [arenaOrigin, Holding.servedByRpcmem, before] using earlier (kept.base old before)
    | none =>
        have origin := acquired_origin before present held.events
        have later : Held provenance (handed result ++ _) _ :=
          held_append (fun event member => (handed_harmless member).keeps _) origin
        simpa [arenaOrigin, Holding.servedByRpcmem, before] using later
  case heap =>
    refine remembered (fun allocation member heap => earlier (kept.heap allocation member heap)) ?_
    intro pointer present heap
    have origin := handed_origin present (acquired held.session.pad system ++ held.events)
    rw [if_pos heap] at origin
    exact origin
  case blocks =>
    refine remembered (fun allocation member arena => earlier (kept.blocks allocation member arena))
      ?_
    intro pointer present arena
    have origin := handed_origin present (acquired held.session.pad system ++ held.events)
    rw [if_neg (Bool.eq_false_iff.mp arena)] at origin
    exact origin
  case goesBack =>
    apply always_append fun event member => (handed_harmless member).allowed
    exact always_append (fun event member => (acquired_harmless member).allowed) kept.goesBack

theorem pairwise_erase {α : Type} [BEq α] [LawfulBEq α] {R : α → α → Prop} {values : List α}
    (pairwise : values.Pairwise R) (symmetric : ∀ x y, R x y → R y x) {value other : α}
    (member : value ∈ values) (remains : other ∈ values.erase value) : R value other := by
  have front := (List.perm_cons_erase member).pairwise pairwise fun {x y} => symmetric x y
  exact List.rel_of_pairwise_cons front remains

theorem Holding.Kept.free {allocation : Allocation} (kept : held.Kept rpcmemLoaded)
    (live : allocation ∈ held.session.live) :
    Holding.Kept rpcmemLoaded
      { held with
        session := ⟨(held.session.pad.free (some allocation.pointer)).1,
          held.session.live.erase allocation⟩
        events := held.session.pad.freeEvents allocation.pointer ++ held.events } := by
  have session := invariant_free kept.session live
  have total : (held.session.pad.free (some allocation.pointer)).1.totalSize =
      held.session.pad.totalSize := session.size
  have buffer : (held.session.pad.free (some allocation.pointer)).1.memoryBuffer =
      held.session.pad.memoryBuffer := by
    unfold Scratchpad.free
    dsimp only
    split <;> rfl
  have distinct (other : Allocation) (remains : other ∈ held.session.live.erase allocation) :=
    pairwise_erase kept.distinct (fun x y apart second first => (apart first second).symm) live
      remains
  have remaining := kept.distinct.sublist (List.erase_sublist (a := allocation))
  cases kind : allocation.fromHeap with
  | true =>
      obtain ⟨events, _⟩ := kept.freeEvents_heap live kind
      have outside := (kept.session.heap.outside allocation live kind).1
      rw [events]
      refine ⟨total ▸ kept.large, total ▸ session, remaining, buffer ▸ kept.loaded,
        total.symm ▸ buffer ▸ kept.sized, ?_, ?_, ?_,
        kept.heap allocation live kind, kept.goesBack⟩
      · intro base present
        have inside := kept.arena_base (buffer ▸ present)
        refine Or.inr ⟨arenaOrigin_notMem ?_ (by simp), kept.base base (buffer ▸ present)⟩
        intro same
        cases same
        rw [inside] at outside
        cases outside
      · intro other member heap
        refine Or.inr ⟨?_, kept.heap other (List.mem_of_mem_erase member) heap⟩
        exact distinct other member kind heap
      · intro other member arena
        exact Or.inr ⟨id, kept.blocks other (List.mem_of_mem_erase member) arena⟩
  | false =>
      have events := kept.freeEvents_arena live kind
      rw [events]
      refine ⟨total ▸ kept.large, total ▸ session, remaining, buffer ▸ kept.loaded,
        total.symm ▸ buffer ▸ kept.sized, ?_, ?_, ?_,
        kept.blocks allocation live kind, kept.goesBack⟩
      · intro base present
        exact Or.inr ⟨arenaOrigin_notMem (by simp) (by simp), kept.base base (buffer ▸ present)⟩
      · intro other member heap
        exact Or.inr ⟨id, kept.heap other (List.mem_of_mem_erase member) heap⟩
      · intro other member arena
        refine Or.inr ⟨?_, kept.blocks other (List.mem_of_mem_erase member) arena⟩
        cases kept.session.arena with
        | absent _ _ empty =>
            have known := mem_arenaPointers live kind
            simp [empty] at known
        | present base blocks fits =>
            have apart := pairwise_erase (arena_pointers_distinct fits)
              (fun x y apart second first => (apart first second).symm) live member
            exact apart kind arena

-- What set_size releases is the arena; a pointer from the heap is not its base.
theorem Holding.Kept.heap_setSize (kept : held.Kept rpcmemLoaded) {allocation : Allocation}
    (live : allocation ∈ held.session.live) (heap : allocation.fromHeap = true) :
    Held provenance (held.session.pad.setSizeEvents rpcmemLoaded ++ held.events)
      (.posix allocation.pointer) := by
  apply held_append _ (kept.heap allocation live heap)
  intro event member
  unfold setSizeEvents at member
  cases buffer : held.session.pad.memoryBuffer with
  | none => simp [buffer] at member
  | some base =>
      have inside := kept.arena_base buffer
      have outside := (kept.session.heap.outside allocation live heap).1
      rw [buffer] at member
      rcases List.mem_cons.mp member with rfl | released
      · exact id
      · rw [List.mem_singleton.mp released]
        split
        · exact id
        · rintro rfl
          rw [inside] at outside
          cases outside

theorem Holding.Kept.goesBack_setSize {newSize : Nat} (kept : held.Kept rpcmemLoaded)
    (careful : Careful rpcmemLoaded held (.setSize newSize)) :
    Always GoesBack (held.session.pad.setSizeEvents rpcmemLoaded ++ held.events) := by
  unfold setSizeEvents
  cases buffer : held.session.pad.memoryBuffer with
  | none => exact kept.goesBack
  | some base =>
      refine ⟨trivial, ?_, kept.goesBack⟩
      have origin := kept.base base buffer
      cases loaded : rpcmemLoaded with
      | true =>
          have rpcmem := careful (by simp [buffer]) loaded
          simpa [GoesBack, arenaOrigin, rpcmem] using origin
      | false =>
          have posix : held.arenaFromRpcmem = false := by
            by_contra rpcmem
            have known := kept.loaded (by simp [buffer]) (by simpa using rpcmem)
            rw [loaded] at known
            cases known
          simpa [GoesBack, arenaOrigin, posix] using origin

theorem Holding.Kept.setSize {newSize : Nat} (kept : held.Kept rpcmemLoaded)
    (large : 2 * sizeofBlockHeader ≤ newSize)
    (careful : Careful rpcmemLoaded held (.setSize newSize)) :
    Holding.Kept rpcmemLoaded
      { session := ⟨held.session.pad.setSize newSize,
          held.session.live.filter fun allocation => !inArena allocation⟩
        dropped := held.session.live.filter inArena ++ held.dropped
        arenaFromRpcmem := held.arenaFromRpcmem
        events := held.session.pad.setSizeEvents rpcmemLoaded ++ held.events } := by
  have heapOnly {allocation : Allocation}
      (member : allocation ∈ held.session.live.filter fun allocation => !inArena allocation) :
      allocation ∈ held.session.live ∧ allocation.fromHeap = true := by
    simpa [inArena] using member
  have session : Session.Invariant newSize ⟨held.session.pad.setSize newSize,
      held.session.live.filter fun allocation => !inArena allocation⟩ := by
    refine ⟨rfl, ⟨?_, kept.session.heap.apart.sublist List.filter_sublist⟩, .absent rfl rfl ?_⟩
    · intro allocation _ _
      exact ⟨rfl, by simp [Scratchpad.setSize]⟩
    · simp [arenaPointers, inArena]
  exact ⟨large, session, kept.distinct.sublist List.filter_sublist,
    by simp [Scratchpad.setSize], by simp [Scratchpad.setSize], by simp [Scratchpad.setSize],
    fun allocation member kind => kept.heap_setSize (heapOnly member).1 kind,
    fun allocation member arena => by simp [(heapOnly member).2] at arena,
    kept.goesBack_setSize careful⟩

theorem Holding.Kept.getFdAndOffset {pointer : Nat} (kept : held.Kept rpcmemLoaded)
    (careful : Careful rpcmemLoaded held (.getFdAndOffset pointer)) :
    Holding.Kept rpcmemLoaded
      { held with events := held.session.pad.fdEvents pointer rpcmemLoaded ++ held.events } := by
  cases buffer : held.session.pad.memoryBuffer with
  | none =>
      have silent : held.session.pad.fdEvents pointer rpcmemLoaded = [] := by
        simp [fdEvents, Scratchpad.getFdAndOffset, buffer]
      rw [silent]
      exact kept
  | some base =>
      by_cases asked : (rpcmemLoaded && held.session.pad.owns pointer) = true
      · obtain ⟨loaded, owned⟩ := Bool.and_eq_true_iff.mp asked
        have rpcmem := careful owned loaded
        have called : held.session.pad.fdEvents pointer rpcmemLoaded = [.rpcmemToFd base] := by
          simp [fdEvents, Scratchpad.getFdAndOffset, buffer, asked]
        have origin := kept.base base buffer
        have ends (origin : Origin) : ¬ provenance.ends (.rpcmemToFd base) origin := by
          cases origin <;> exact id
        rw [called]
        refine ⟨kept.large, kept.session, kept.distinct, kept.loaded, kept.sized, ?_, ?_,
          ?_, ?_, kept.goesBack⟩
        · exact fun other present => Or.inr ⟨ends _, kept.base other present⟩
        · exact fun other member heap => Or.inr ⟨ends _, kept.heap other member heap⟩
        · exact fun other member arena => Or.inr ⟨ends _, kept.blocks other member arena⟩
        · simpa [GoesBack, arenaOrigin, rpcmem] using origin
      · have silent : held.session.pad.fdEvents pointer rpcmemLoaded = [] := by
          simp [fdEvents, Scratchpad.getFdAndOffset, buffer, asked]
        rw [silent]
        exact kept

theorem Holding.Kept.step {next : Holding} (kept : held.Kept rpcmemLoaded)
    (moved : held.CarefulStep rpcmemLoaded next) : next.Kept rpcmemLoaded := by
  obtain ⟨request, careful, step⟩ := moved
  cases step with
  | alloc size system result pad loaded granted distinct call =>
      exact kept.alloc loaded granted careful distinct call
  | free allocation live => exact kept.free live
  | freeDropped => exact careful.elim
  | freeNull => exact kept
  | write headers confined =>
      exact ⟨kept.large, invariant_write kept.session confined, kept.distinct, kept.loaded,
        kept.sized, kept.base, kept.heap, kept.blocks, kept.goesBack⟩
  | setSize newSize large => exact kept.setSize large careful
  | getFdAndOffset pointer => exact kept.getFdAndOffset careful

end Keeps

theorem kept_start {totalSize : Nat} (headers : Nat → BlockHeader) (rpcmemLoaded : Bool)
    (large : 2 * sizeofBlockHeader ≤ totalSize) :
    (Holding.start totalSize headers).Kept rpcmemLoaded :=
  ⟨large, invariant_start totalSize headers, List.Pairwise.nil, nofun, nofun, nofun, nofun, nofun,
    trivial⟩

-- In every run that frees no pointer of a dropped arena, and neither resizes nor exports an arena
-- of posix_memalign while rpcmem is loaded, all memory goes back the way it came, once.
theorem scratchpad_goes_back {totalSize : Nat} {headers : Nat → BlockHeader} {rpcmemLoaded : Bool}
    {held : Holding} (large : 2 * sizeofBlockHeader ≤ totalSize)
    (run : ReflTransGen (Holding.CarefulStep rpcmemLoaded) (.start totalSize headers) held) :
    Always GoesBack held.events :=
  (Runs.preserved (fun _ _ kept moved => kept.step moved) run
    (kept_start headers rpcmemLoaded large)).goesBack

section Sample

def emptyHolding : Holding := .start 1024 fun _ => ⟨0, false, none, none⟩

theorem sampleGranted (system : SystemMemory) (bytes : Nat)
    (arena : arenaSource system = some 4096) (noRequest : system.posixMemalign = none) :
    Granted system emptyHolding.session (alignUp 100) bytes := by
  refine ⟨?_, by simp [emptyHolding, Holding.start, Session.start], by simp [noRequest]⟩
  intro base source
  rw [arena] at source
  cases source
  rfl

def rpcmemMemory : SystemMemory := ⟨true, some 4096, none, none⟩

def refusedMemory : SystemMemory := ⟨true, none, some 4096, none⟩

theorem rpcmem_arena_goes_back :
    ∃ held, ReflTransGen (Holding.CarefulStep true) emptyHolding held ∧
      held.events = [.dropArena, .rpcmemFree 4096, .handOut 4224, .rpcmemAlloc 4096] ∧
      Always GoesBack held.events := by
  have granted := sampleGranted rpcmemMemory
    (emptyHolding.session.pad.arenaBytes (emptyHolding.servedByRpcmem rpcmemMemory)) rfl rfl
  have alloc : Holding.Step true emptyHolding _ _ :=
    .alloc emptyHolding 100 rpcmemMemory ⟨some 4224, false⟩ _ rfl granted nofun rfl
  have small : Careful true emptyHolding (.alloc 100 rpcmemMemory) := fun _ => by decide
  have allocated : ReflTransGen (Holding.CarefulStep true) emptyHolding _ :=
    .tail .refl ⟨.alloc 100 rpcmemMemory, small, alloc⟩
  have run : ReflTransGen (Holding.CarefulStep true) emptyHolding _ :=
    .tail allocated ⟨.setSize 2048, fun _ _ => rfl, .setSize _ 2048 (by decide)⟩
  exact ⟨_, run, rfl, scratchpad_goes_back (by decide) run⟩

-- rpcmem_alloc is asked for 256 bytes, and posix_memalign hands out memory behind them.
def narrowedMemory : SystemMemory := ⟨true, some 4096, none, some 8192⟩

theorem alloc_oversized {pad : Scratchpad} {size base : Nat} {system : SystemMemory}
    (fresh : pad.memoryBuffer = none) (source : arenaSource system = some base)
    (positive : 0 < pad.totalSize) (oversized : pad.totalSize - sizeofBlockHeader < alignUp size) :
    pad.alloc size system =
      some (⟨system.posixMemalign, true⟩, pad.initializeIfNeeded system) := by
  obtain ⟨fuel, total⟩ := Nat.exists_eq_succ_of_ne_zero positive.ne'
  rw [total] at oversized
  have refused : ¬ alignUp size ≤ fuel + 1 - sizeofBlockHeader := by omega
  simp [alloc, initializeIfNeeded, fresh, source, total, findBlock, initialHeader, refused]

-- rpcmem_free is given what posix_memalign returned, ::free a pointer inside a dropped arena, and
-- the header list is edited for a pointer from posix_memalign.
theorem arena_released_wrongly :
    (∃ held, ReflTransGen (Holding.AnyStep true) emptyHolding held ∧
      held.events = [.dropArena, .rpcmemFree 4096, .handOut 4224, .posixMemalign 4096] ∧
      ¬ Always GoesBack held.events) ∧
    (∃ held, ReflTransGen (Holding.AnyStep false) emptyHolding held ∧
      held.events = [.heapFree 4224, .dropArena, .heapFree 4096, .handOut 4224,
        .posixMemalign 4096] ∧ ¬ Always GoesBack held.events) ∧
    ∃ held, ReflTransGen (Holding.AnyStep true) emptyHolding held ∧
      held.events = [.editHeaders 8192, .posixMemalign 8192, .rpcmemAlloc 4096] ∧
      ¬ Always GoesBack held.events := by
  refine ⟨?_, ?_, ?_⟩
  · have granted := sampleGranted refusedMemory
      (emptyHolding.session.pad.arenaBytes (emptyHolding.servedByRpcmem refusedMemory)) rfl rfl
    have alloc : Holding.Step true emptyHolding _ _ :=
      .alloc emptyHolding 100 refusedMemory ⟨some 4224, false⟩ _ rfl granted nofun rfl
    have allocated : ReflTransGen (Holding.AnyStep true) emptyHolding _ :=
      .tail .refl ⟨_, alloc⟩
    have resized : ReflTransGen (Holding.AnyStep true) emptyHolding _ :=
      .tail allocated ⟨_, .setSize _ 2048 (by decide)⟩
    refine ⟨_, resized, rfl, ?_⟩
    intro always
    have released : Held provenance [.handOut 4224, .posixMemalign 4096] (.rpcmem 4096) :=
      always.2.1
    simp [Held, provenance, Event.makes] at released
  · have granted := sampleGranted sampleMemory
      (emptyHolding.session.pad.arenaBytes (emptyHolding.servedByRpcmem sampleMemory)) rfl rfl
    have alloc : Holding.Step false emptyHolding _ _ :=
      .alloc emptyHolding 100 sampleMemory ⟨some 4224, false⟩ _ rfl granted nofun rfl
    have allocated : ReflTransGen (Holding.AnyStep false) emptyHolding _ :=
      .tail .refl ⟨_, alloc⟩
    have resized : ReflTransGen (Holding.AnyStep false) emptyHolding _ :=
      .tail allocated ⟨_, .setSize _ 2048 (by decide)⟩
    have freed : ReflTransGen (Holding.AnyStep false) emptyHolding _ :=
      .tail resized ⟨_, .freeDropped _ ⟨4224, 128, false⟩ (by decide)⟩
    refine ⟨_, freed, rfl, ?_⟩
    intro always
    have released : Held provenance
        [.dropArena, .heapFree 4096, .handOut 4224, .posixMemalign 4096] (.posix 4224) := always.1
    simp [Held, provenance, Event.makes] at released
  · have resized : Holding.Step true emptyHolding _ _ :=
      .setSize emptyHolding (2 ^ 32 + 256) (by decide)
    let large : Holding :=
      { session := ⟨emptyHolding.session.pad.setSize (2 ^ 32 + 256), []⟩
        dropped := []
        arenaFromRpcmem := false
        events := [] }
    have start : ReflTransGen (Holding.AnyStep true) emptyHolding large := .tail .refl ⟨_, resized⟩
    have call : large.session.pad.alloc (2 ^ 33) narrowedMemory =
        some (⟨some 8192, true⟩, large.session.pad.initializeIfNeeded narrowedMemory) :=
      alloc_oversized rfl rfl (by decide) (by decide)
    have granted : Granted narrowedMemory large.session (alignUp (2 ^ 33))
        (large.session.pad.arenaBytes (large.servedByRpcmem narrowedMemory)) := by
      refine ⟨?_, nofun, ?_⟩
      · rintro base ⟨⟩
        rfl
      · rintro pointer ⟨⟩
        refine ⟨?_, nofun⟩
        rintro base ⟨⟩
        exact ⟨.inr (by decide), .inr (by decide)⟩
    have alloc := @Holding.Step.alloc true large (2 ^ 33) narrowedMemory _ _ rfl
      granted nofun call
    have allocated : ReflTransGen (Holding.AnyStep true) emptyHolding _ := .tail start ⟨_, alloc⟩
    have freed : ReflTransGen (Holding.AnyStep true) emptyHolding _ :=
      .tail allocated ⟨_, .free _ ⟨8192, alignUp (2 ^ 33), true⟩ (List.mem_singleton_self _)⟩
    refine ⟨_, freed, rfl, ?_⟩
    intro always
    have edited : Held provenance [.posixMemalign 8192, .rpcmemAlloc 4096] (.arena 8192) :=
      always.1
    simp [Held, provenance, Event.makes] at edited

end Sample

end NpuMatmul.Scratchpad
