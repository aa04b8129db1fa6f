import Mathlib.Algebra.Group.Nat.Defs
import NpuMatmul.Shared.LinkedHeap
import NpuMatmul.Shared.Tiling

set_option autoImplicit false

namespace NpuMatmul

-- alignas(128) pads the four fields of a BlockHeader to one alignment unit.
def sizeofBlockHeader : Nat := 128

structure BlockHeader where
  size : Nat
  isFree : Bool
  next : Option Nat
  prev : Option Nat
deriving DecidableEq, Repr

-- What the platform answers during one call: rpcmem, and posix_memalign for the arena and
-- for the request itself. A null result is none.
structure SystemMemory where
  rpcmemLoaded : Bool
  rpcmemAlloc : Option Nat
  arenaMemalign : Option Nat
  posixMemalign : Option Nat
deriving DecidableEq, Repr

structure Scratchpad where
  memoryBuffer : Option Nat := none
  totalSize : Nat := 32 * 1024 * 1024
  headBlock : Option Nat := none
  headers : Nat → BlockHeader

namespace Scratchpad

-- What the int parameter of rpcmem_alloc makes of a size_t.
def rpcmemBytes (size : Nat) : Int := (BitVec.ofNat 32 size).toInt

def initialHeader (totalSize : Nat) : BlockHeader :=
  { size := totalSize - sizeofBlockHeader, isFree := true, next := none, prev := none }

def arenaSource (system : SystemMemory) : Option Nat :=
  (if system.rpcmemLoaded then system.rpcmemAlloc else none).or system.arenaMemalign

def initializeIfNeeded (pad : Scratchpad) (system : SystemMemory) : Scratchpad :=
  match pad.memoryBuffer, arenaSource system with
  | none, some buffer =>
      { pad with
        memoryBuffer := some buffer
        headBlock := some buffer
        headers := Function.update pad.headers buffer (initialHeader pad.totalSize) }
  | _, _ => pad

-- (size + 127) & ~127 on a 64-bit size_t.
def alignUp (size : Nat) : Nat := (size + 127) % 2 ^ 64 / 128 * 128

def modify (headers : Nat → BlockHeader) (address : Nat) (change : BlockHeader → BlockHeader) :
    Nat → BlockHeader :=
  Function.update headers address (change (headers address))

def setPrev (headers : Nat → BlockHeader) (block : Option Nat) (prev : Option Nat) :
    Nat → BlockHeader :=
  match block with
  | none => headers
  | some address => modify headers address fun header => { header with prev := prev }

-- The search loop of alloc. The outer none is a walk longer than the fuel.
def findBlock (headers : Nat → BlockHeader) (size : Nat) : Nat → Option Nat → Option (Option Nat)
  | _, none => some none
  | 0, some _ => none
  | fuel + 1, some current =>
      if (headers current).isFree ∧ size ≤ (headers current).size then some (some current)
      else findBlock headers size fuel (headers current).next

def splitBlock (headers : Nat → BlockHeader) (current size : Nat) : Nat → BlockHeader :=
  let nextBlock := current + sizeofBlockHeader + size
  let headers := Function.update headers nextBlock
    { size := (headers current).size - size - sizeofBlockHeader
      isFree := true
      next := (headers current).next
      prev := some current }
  let headers := setPrev headers (headers current).next (some nextBlock)
  let headers := modify headers current fun header => { header with next := some nextBlock }
  modify headers current fun header => { header with size := size }

def takeBlock (headers : Nat → BlockHeader) (current size : Nat) : Nat → BlockHeader :=
  let headers :=
    if size + sizeofBlockHeader + 128 ≤ (headers current).size then
      splitBlock headers current size
    else headers
  modify headers current fun header => { header with isFree := false }

structure AllocResult where
  pointer : Option Nat
  fromHeap : Bool
deriving DecidableEq, Repr

def alloc (pad : Scratchpad) (size : Nat) (system : SystemMemory) :
    Option (AllocResult × Scratchpad) :=
  let pad := pad.initializeIfNeeded system
  let size := alignUp size
  match findBlock pad.headers size pad.totalSize pad.headBlock with
  | none => none
  | some none => some (⟨system.posixMemalign, true⟩, pad)
  | some (some current) =>
      some (⟨some (current + sizeofBlockHeader), false⟩,
        { pad with headers := takeBlock pad.headers current size })

def mergeNext (headers : Nat → BlockHeader) (current : Nat) : Nat → BlockHeader :=
  match (headers current).next with
  | none => headers
  | some next =>
      if (headers next).isFree then
        let headers := modify headers current fun header =>
          { header with size := header.size + (sizeofBlockHeader + (headers next).size) }
        let headers := modify headers current fun header =>
          { header with next := (headers next).next }
        setPrev headers (headers current).next (some current)
      else headers

def mergePrev (headers : Nat → BlockHeader) (current : Nat) : Nat → BlockHeader :=
  match (headers current).prev with
  | none => headers
  | some prev =>
      if (headers prev).isFree then
        let headers := modify headers prev fun header =>
          { header with size := header.size + (sizeofBlockHeader + (headers current).size) }
        let headers := modify headers prev fun header =>
          { header with next := (headers current).next }
        setPrev headers (headers current).next (headers current).prev
      else headers

def releaseBlock (headers : Nat → BlockHeader) (current : Nat) : Nat → BlockHeader :=
  let headers := modify headers current fun header => { header with isFree := true }
  mergePrev (mergeNext headers current) current

def owns (pad : Scratchpad) (pointer : Nat) : Bool :=
  match pad.memoryBuffer with
  | none => false
  | some buffer => decide (buffer ≤ pointer) && decide (pointer < buffer + pad.totalSize)

-- The second component is the pointer handed to ::free, if any.
def free (pad : Scratchpad) (pointer : Option Nat) : Scratchpad × Option Nat :=
  match pointer with
  | none => (pad, none)
  | some address =>
      if pad.owns address then
        ({ pad with headers := releaseBlock pad.headers (address - sizeofBlockHeader) }, none)
      else (pad, some address)

end Scratchpad

end NpuMatmul
