import Mathlib.Data.List.Nodup
import NpuMatmul.Memory.Scratchpad

set_option autoImplicit false

namespace NpuMatmul.Scratchpad

open LinkedHeap Tiling

structure Block where
  address : Nat
  size : Nat
  isFree : Bool
deriving DecidableEq, Repr

def Block.payload (block : Block) : Nat := block.address + sizeofBlockHeader

def Block.node (block : Block) : Nat × (Nat × Bool) := (block.address, (block.size, block.isFree))

def Block.extent (block : Block) : Nat × Nat := (block.address, sizeofBlockHeader + block.size)

def headerView : View BlockHeader (Nat × Bool) where
  value header := (header.size, header.isFree)
  next := BlockHeader.next
  prev := BlockHeader.prev

def nextOf (blocks : List Block) : Option Nat := firstAddress (blocks.map Block.node) none

@[simp] theorem nextOf_nil : nextOf [] = none := rfl

@[simp] theorem nextOf_cons (block : Block) (rest : List Block) :
    nextOf (block :: rest) = some block.address := rfl

def Represents (headers : Nat → BlockHeader) (prev : Option Nat) (blocks : List Block)
    (next : Option Nat) : Prop :=
  Linked headerView headers prev (blocks.map Block.node) next

theorem represents_cons {headers : Nat → BlockHeader} {prev next : Option Nat} {block : Block}
    {rest : List Block} :
    Represents headers prev (block :: rest) next ↔
      headers block.address =
          ⟨block.size, block.isFree, firstAddress (rest.map Block.node) next, prev⟩ ∧
        Represents headers (some block.address) rest next := by
  simp only [Represents, List.map_cons, Linked, headerView, Block.node]
  constructor
  · rintro ⟨value, back, forward, tail⟩
    obtain ⟨size, free⟩ := Prod.mk.inj value
    exact ⟨by rw [← size, ← free, ← back, ← forward], tail⟩
  · rintro ⟨header, tail⟩
    exact ⟨by rw [header], by rw [header], by rw [header], tail⟩

theorem represents_append {headers : Nat → BlockHeader} {prev next : Option Nat}
    {left right : List Block} :
    Represents headers prev (left ++ right) next ↔
      Represents headers prev left (firstAddress (right.map Block.node) next) ∧
        Represents headers (lastAddress prev (left.map Block.node)) right next := by
  simp only [Represents, List.map_append, linked_append]

theorem Represents.congr {headers headers' : Nat → BlockHeader} {prev next : Option Nat}
    {blocks : List Block} (represents : Represents headers prev blocks next)
    (agree : ∀ block ∈ blocks, headers' block.address = headers block.address) :
    Represents headers' prev blocks next := by
  refine Linked.congr represents ?_
  intro node member
  obtain ⟨block, blockMember, rfl⟩ := List.mem_map.mp member
  exact agree block blockMember

theorem Represents.rebase {headers headers' : Nat → BlockHeader} {prev next : Option Nat}
    {blocks : List Block} (prev' : Option Nat) (represents : Represents headers prev blocks next)
    (first : ∀ block ∈ blocks.head?,
      headers' block.address = { headers block.address with prev := prev' })
    (agree : ∀ block ∈ blocks.tail, headers' block.address = headers block.address) :
    Represents headers' prev' blocks next := by
  refine Linked.rebase represents ?_ ?_
  · intro node member
    rw [List.head?_map] at member
    obtain ⟨block, blockMember, rfl⟩ := Option.map_eq_some_iff.mp member
    have changed := first block blockMember
    simp [headerView, Block.node, changed]
  · intro node member
    rw [← List.map_tail] at member
    obtain ⟨block, blockMember, rfl⟩ := List.mem_map.mp member
    exact agree block blockMember

theorem Represents.header {headers : Nat → BlockHeader} {prev : Option Nat}
    {left right : List Block} {block : Block}
    (represents : Represents headers prev (left ++ block :: right) none) :
    headers block.address =
      ⟨block.size, block.isFree, nextOf right, lastAddress prev (left.map Block.node)⟩ :=
  (represents_cons.mp (represents_append.mp represents).2).1

-- A list of blocks as the arena between two addresses must store it.
structure Tiled (start stop : Nat) (blocks : List Block) : Prop where
  tiles : Tiles start stop (blocks.map Block.extent)
  aligned : ∀ block ∈ blocks, block.address % 128 = 0
  started : ∀ block ∈ blocks, block.payload < stop

theorem Tiled.nodup {start stop : Nat} {blocks : List Block} (tiled : Tiled start stop blocks) :
    (blocks.map Block.address).Nodup := by
  have addresses : blocks.map Block.address = (blocks.map Block.extent).map Prod.fst := by
    simp [Block.extent]
  rw [addresses]
  refine tiled.tiles.nodup ?_
  intro extent member
  obtain ⟨block, -, rfl⟩ := List.mem_map.mp member
  simp only [Block.extent, sizeofBlockHeader]
  omega

theorem Tiled.inside {start stop : Nat} {blocks : List Block} (tiled : Tiled start stop blocks)
    {block : Block} (member : block ∈ blocks) :
    start ≤ block.address ∧ block.payload + block.size ≤ stop := by
  have bound := tiled.tiles.inside (List.mem_map_of_mem member)
  simp only [Block.extent, Block.payload] at *
  omega

theorem Tiled.apart {start stop : Nat} {blocks : List Block} (tiled : Tiled start stop blocks)
    {left right : Block} (leftMember : left ∈ blocks) (rightMember : right ∈ blocks)
    (different : left ≠ right) : Apart left.extent right.extent := by
  refine tiled.tiles.apart (List.mem_map_of_mem leftMember) (List.mem_map_of_mem rightMember) ?_
  intro same
  apply different
  have address : left.address = right.address := congrArg Prod.fst same
  exact List.inj_on_of_nodup_map tiled.nodup leftMember rightMember address

theorem Tiled.length_le {start stop : Nat} {blocks : List Block}
    (tiled : Tiled start stop blocks) : blocks.length ≤ stop - start := by
  have bound := tiled.tiles.length_le 1 (by
    intro extent member
    obtain ⟨block, -, rfl⟩ := List.mem_map.mp member
    simp only [Block.extent, sizeofBlockHeader]
    omega)
  simp only [List.length_map, Nat.one_mul] at bound
  omega

def Coalesced (blocks : List Block) : Prop :=
  blocks.IsChain fun left right => ¬ (left.isFree = true ∧ right.isFree = true)

-- The list view of an initialised arena.
structure Laid (pad : Scratchpad) (base : Nat) (blocks : List Block) : Prop where
  buffer : pad.memoryBuffer = some base
  head : pad.headBlock = nextOf blocks
  represents : Represents pad.headers none blocks none
  tiled : Tiled base (base + pad.totalSize) blocks
  coalesced : Coalesced blocks

end NpuMatmul.Scratchpad
