import NpuMatmul.Memory.BlockList

set_option autoImplicit false

namespace NpuMatmul.Scratchpad

open LinkedHeap Tiling

theorem Represents.splice {headers headers' : Nat → BlockHeader} {prev : Option Nat}
    {before new after : List Block} (old : List Block)
    (represents : Represents headers prev (before ++ (old ++ after)) none)
    (entry : ∀ next, firstAddress (new.map Block.node) next = firstAddress (old.map Block.node) next)
    (frame : ∀ block ∈ before, headers' block.address = headers block.address)
    (middle : Represents headers' (lastAddress prev (before.map Block.node)) new (nextOf after))
    (rest : Represents headers'
      (lastAddress (lastAddress prev (before.map Block.node)) (new.map Block.node)) after none) :
    Represents headers' prev (before ++ (new ++ after)) none := by
  rw [represents_append] at represents
  rw [represents_append, represents_append]
  refine ⟨?_, middle, rest⟩
  have same : firstAddress ((new ++ after).map Block.node) none =
      firstAddress ((old ++ after).map Block.node) none := by
    simp only [List.map_append, firstAddress_append, entry]
  rw [same]
  exact represents.1.congr frame

theorem Tiled.splice {start stop : Nat} {before new after : List Block} (old : List Block)
    (tiled : Tiled start stop (before ++ (old ++ after)))
    (covers : ∀ first last, Tiles first last (old.map Block.extent) →
      Tiles first last (new.map Block.extent))
    (aligned : ∀ block ∈ new, block.address % 128 = 0)
    (started : ∀ block ∈ new, block.payload < stop) :
    Tiled start stop (before ++ (new ++ after)) := by
  refine ⟨?_, ?_, ?_⟩
  · have tiles := tiled.tiles
    simp only [List.map_append, tiles_append] at tiles ⊢
    obtain ⟨first, left, last, middle, right⟩ := tiles
    exact ⟨first, left, last, covers first last middle, right⟩
  · intro block member
    have old_aligned := tiled.aligned block
    simp only [List.mem_append] at member old_aligned
    rcases member with left | middle | right
    · exact old_aligned (.inl left)
    · exact aligned block middle
    · exact old_aligned (.inr (.inr right))
  · intro block member
    have old_started := tiled.started block
    simp only [List.mem_append] at member old_started
    rcases member with left | middle | right
    · exact old_started (.inl left)
    · exact started block middle
    · exact old_started (.inr (.inr right))

theorem addresses_around {before after : List Block} {block : Block}
    (nodup : ((before ++ block :: after).map Block.address).Nodup) :
    (∀ other ∈ before, other.address ≠ block.address) ∧
      (∀ other ∈ after, other.address ≠ block.address) ∧
      (∀ left ∈ before, ∀ right ∈ after, left.address ≠ right.address) := by
  simp only [List.map_append, List.map_cons, List.nodup_append, List.nodup_cons, List.mem_map,
    List.mem_cons] at nodup
  obtain ⟨-, ⟨fresh, -⟩, separate⟩ := nodup
  refine ⟨?_, ?_, ?_⟩
  · intro other member same
    exact separate _ ⟨other, member, rfl⟩ _ (.inl rfl) same
  · intro other member same
    exact fresh ⟨other, member, same⟩
  · intro left leftMember right rightMember same
    exact separate _ ⟨left, leftMember, rfl⟩ _ (.inr ⟨right, rightMember, rfl⟩) same

theorem findBlock_correct {headers : Nat → BlockHeader} {prev : Option Nat} {fuel : Nat}
    {blocks : List Block} (size : Nat) (represents : Represents headers prev blocks none)
    (enough : blocks.length ≤ fuel) :
    (findBlock headers size fuel (nextOf blocks) = some none ∧
        ∀ block ∈ blocks, block.isFree = true → block.size < size) ∨
      ∃ before block after, blocks = before ++ block :: after ∧ block.isFree = true ∧
        size ≤ block.size ∧
        findBlock headers size fuel (nextOf blocks) = some (some block.address) := by
  induction blocks generalizing prev fuel with
  | nil => left; simp [findBlock]
  | cons block rest ih =>
    obtain ⟨header, tail⟩ := represents_cons.mp represents
    cases fuel with
    | zero => simp at enough
    | succ fuel =>
      by_cases fits : block.isFree = true ∧ size ≤ block.size
      · right
        exact ⟨[], block, rest, rfl, fits.1, fits.2, by simp [findBlock, header, fits]⟩
      · have next : findBlock headers size (fuel + 1) (nextOf (block :: rest)) =
            findBlock headers size fuel (nextOf rest) := by
          simp only [nextOf_cons, findBlock, header, if_neg fits]
          rfl
        rw [next]
        rcases ih tail (by simpa using enough) with ⟨finished, small⟩ | found
        · refine .inl ⟨finished, ?_⟩
          intro other member free
          rcases List.mem_cons.mp member with rfl | later
          · exact Nat.lt_of_not_le fun large => fits ⟨free, large⟩
          · exact small other later free
        · obtain ⟨before, chosen, after, rfl, free, large, result⟩ := found
          exact .inr ⟨block :: before, chosen, after, rfl, free, large, result⟩

def taken (block : Block) (size : Nat) : List Block :=
  if size + sizeofBlockHeader + 128 ≤ block.size then
    [{ block with size := size, isFree := false },
      { address := block.payload + size
        size := block.size - size - sizeofBlockHeader
        isFree := true }]
  else [{ block with isFree := false }]

theorem setPrev_of_ne {headers : Nat → BlockHeader} {block prev : Option Nat} {address : Nat}
    (different : block ≠ some address) : setPrev headers block prev address = headers address := by
  cases block with
  | none => rfl
  | some other =>
    have apart : address ≠ other := fun same => different (by rw [same])
    exact Function.update_of_ne apart _ _

theorem setPrev_self {headers : Nat → BlockHeader} {prev : Option Nat} {address : Nat} :
    setPrev headers (some address) prev address = { headers address with prev := prev } :=
  Function.update_self _ _ _

theorem splitBlock_eq {headers : Nat → BlockHeader} {current size : Nat}
    (successor : (headers current).next ≠ some current) :
    splitBlock headers current size =
      Function.update
        (setPrev
          (Function.update headers (current + sizeofBlockHeader + size)
            ⟨(headers current).size - size - sizeofBlockHeader, true, (headers current).next,
              some current⟩)
          (headers current).next (some (current + sizeofBlockHeader + size)))
        current
        { headers current with size := size, next := some (current + sizeofBlockHeader + size) } := by
  have apart : current ≠ current + sizeofBlockHeader + size := by
    simp only [sizeofBlockHeader]; omega
  simp only [splitBlock, modify, Function.update_of_ne apart, Function.update_self,
    setPrev_of_ne successor, Function.update_idem]

theorem nextOf_ne_of_mem_tail {before after : List Block} {block : Block}
    (nodup : ((before ++ block :: after).map Block.address).Nodup) :
    ∀ other ∈ after.tail, nextOf after ≠ some other.address := by
  intro other member
  cases after with
  | nil => simp at member
  | cons head rest =>
    simp only [List.map_append, List.map_cons, List.nodup_append, List.nodup_cons] at nodup
    intro same
    have address : head.address = other.address := Option.some.inj same
    exact nodup.2.1.2.1 (address ▸ List.mem_map_of_mem member)

theorem nextOf_ne {after : List Block} {address : Nat}
    (different : ∀ other ∈ after, other.address ≠ address) : nextOf after ≠ some address := by
  cases after with
  | nil => simp
  | cons head rest =>
    intro same
    exact different head (by simp) (Option.some.inj same)

section Taking

variable {headers : Nat → BlockHeader} {before after : List Block} {block : Block} {size : Nat}
  (represents : Represents headers none (before ++ block :: after) none)
  (nodup : ((before ++ block :: after).map Block.address).Nodup)

include represents nodup

theorem represents_whole (small : ¬ size + sizeofBlockHeader + 128 ≤ block.size) :
    Represents (takeBlock headers block.address size) none
      (before ++ ([{ block with isFree := false }] ++ after)) none := by
  have header := represents.header
  obtain ⟨left, right, _⟩ := addresses_around nodup
  have tail := (represents_cons.mp (represents_append.mp represents).2).2
  refine represents.splice [block] (fun _ => rfl) ?_ ?_ ?_
  · intro other member
    simp only [takeBlock, header, small, if_false, modify]
    exact Function.update_of_ne (left other member) _ _
  · simp only [represents_cons, takeBlock, header, small, if_false, modify, Function.update_self]
    exact ⟨rfl, trivial⟩
  · simp only [takeBlock, header, small, if_false, modify]
    refine tail.congr fun other member => ?_
    exact Function.update_of_ne (right other member) _ _

theorem represents_split (large : size + sizeofBlockHeader + 128 ≤ block.size)
    (fresh : ∀ other ∈ before ++ block :: after, other.address ≠ block.payload + size) :
    Represents (takeBlock headers block.address size) none
      (before ++ ([{ block with size := size, isFree := false },
        { address := block.payload + size
          size := block.size - size - sizeofBlockHeader
          isFree := true }] ++ after)) none := by
  have header := represents.header
  obtain ⟨left, right, across⟩ := addresses_around nodup
  have successor : nextOf after ≠ some block.address := nextOf_ne right
  have tail := (represents_cons.mp (represents_append.mp represents).2).2
  have notSplit := fresh block (by simp)
  have splitNext : nextOf after ≠ some (block.payload + size) :=
    nextOf_ne fun later member => fresh later (by simp [member])
  simp only [takeBlock, header, large, if_true, modify]
  rw [splitBlock_eq (by rw [header]; exact successor)]
  refine represents.splice [block] (fun _ => rfl) ?_ ?_ ?_
  · intro other member
    have notNext : nextOf after ≠ some other.address :=
      nextOf_ne fun later laterMember => (across other member later laterMember).symm
    simp only [header, Function.update_of_ne (left other member), setPrev_of_ne notNext]
    exact Function.update_of_ne (fresh other (by simp [member])) _ _
  · rw [represents_cons, represents_cons]
    refine ⟨?_, ?_, trivial⟩
    · simp only [header, Function.update_self]
      rfl
    · simp only [Function.update_of_ne notSplit.symm, header, setPrev_of_ne splitNext]
      exact Function.update_self _ _ _
  · refine tail.rebase (some (block.payload + size)) ?_ ?_
    · intro other member
      have inside : other ∈ after := List.mem_of_head? member
      have apart := fresh other (by simp [inside])
      have isNext : nextOf after = some other.address := by
        cases after with
        | nil => simp at inside
        | cons head rest => rw [Option.some.inj member]; rfl
      simp only [header, Function.update_of_ne (right other inside), isNext, setPrev_self]
      simp only [Block.payload] at apart
      rw [Function.update_of_ne apart]
      rfl
    · intro other member
      have inside : other ∈ after := List.mem_of_mem_tail member
      simp only [header, Function.update_of_ne (right other inside),
        setPrev_of_ne (nextOf_ne_of_mem_tail nodup other member)]
      exact Function.update_of_ne (fresh other (by simp [inside])) _ _

theorem represents_take
    (fresh : size + sizeofBlockHeader + 128 ≤ block.size →
      ∀ other ∈ before ++ block :: after, other.address ≠ block.payload + size) :
    Represents (takeBlock headers block.address size) none
      (before ++ (taken block size ++ after)) none := by
  by_cases large : size + sizeofBlockHeader + 128 ≤ block.size
  · rw [taken, if_pos large]
    exact represents_split represents nodup large (fresh large)
  · rw [taken, if_neg large]
    exact represents_whole represents nodup large

end Taking

theorem alignUp_aligned (size : Nat) : alignUp size % 128 = 0 := Nat.mul_mod_left _ _

theorem le_alignUp {size : Nat} (small : size + 127 < 2 ^ 64) : size ≤ alignUp size := by
  simp only [alignUp, Nat.mod_eq_of_lt small]
  omega

theorem tiled_take {start stop size : Nat} {before after : List Block} {block : Block}
    (tiled : Tiled start stop (before ++ block :: after)) (aligned : size % 128 = 0) :
    Tiled start stop (before ++ (taken block size ++ after)) := by
  have member : block ∈ before ++ block :: after := by simp
  have place := tiled.aligned block member
  have payload := tiled.started block member
  have bound := tiled.inside member
  refine tiled.splice [block] ?_ ?_ ?_
  · intro first last tiles
    simp only [List.map_cons, List.map_nil, Tiles, Block.extent] at tiles
    unfold taken
    split
    · next large =>
      simp only [List.map_cons, List.map_nil, Tiles, Block.extent, Block.payload]
      simp only [sizeofBlockHeader] at *
      omega
    · simpa [Tiles, Block.extent] using tiles
  · intro other inside
    unfold taken at inside
    split at inside
    · rcases List.mem_cons.mp inside with rfl | second
      · exact place
      · rw [List.mem_singleton.mp second]
        simp only [Block.payload, sizeofBlockHeader]
        omega
    · rw [List.mem_singleton.mp inside]
      exact place
  · intro other inside
    unfold taken at inside
    split at inside
    · next large =>
      rcases List.mem_cons.mp inside with rfl | second
      · exact payload
      · rw [List.mem_singleton.mp second]
        simp only [Block.payload, sizeofBlockHeader] at *
        omega
    · rw [List.mem_singleton.mp inside]
      exact payload

theorem coalesced_append {left right : List Block} :
    Coalesced (left ++ right) ↔ Coalesced left ∧ Coalesced right ∧
      ∀ last ∈ left.getLast?, ∀ first ∈ right.head?,
        ¬ (last.isFree = true ∧ first.isFree = true) :=
  List.isChain_append

theorem coalesced_take {size : Nat} {before after : List Block} {block : Block}
    (coalesced : Coalesced (before ++ block :: after)) (free : block.isFree = true) :
    Coalesced (before ++ (taken block size ++ after)) := by
  rw [coalesced_append] at coalesced ⊢
  obtain ⟨left, right, -⟩ := coalesced
  have split : Coalesced ([block] ++ after) := right
  obtain ⟨-, rest, seam⟩ := coalesced_append.mp split
  refine ⟨left, ?_, ?_⟩
  · rw [coalesced_append]
    refine ⟨?_, rest, ?_⟩
    · unfold taken
      split <;> simp [Coalesced]
    · intro last lastMember first firstMember both
      have occupied : first.isFree ≠ true := fun firstFree =>
        seam block (by simp) first firstMember ⟨free, firstFree⟩
      exact occupied both.2
  · intro last lastMember first firstMember both
    have occupied : first.isFree = false := by
      unfold taken at firstMember
      split at firstMember <;> simp at firstMember <;> rw [← firstMember]
    simp [occupied] at both

theorem split_fresh {start stop size : Nat} {before after : List Block} {block : Block}
    (tiled : Tiled start stop (before ++ block :: after))
    (large : size + sizeofBlockHeader + 128 ≤ block.size) :
    ∀ other ∈ before ++ block :: after, other.address ≠ block.payload + size := by
  intro other member same
  by_cases isBlock : other = block
  · rw [isBlock] at same
    simp only [Block.payload, sizeofBlockHeader] at same
    omega
  · have apart := tiled.apart member (by simp : block ∈ before ++ block :: after) isBlock
    simp only [Apart, Block.extent, Block.payload, sizeofBlockHeader] at *
    omega

theorem alloc_laid {pad : Scratchpad} {base : Nat} {blocks : List Block} (size : Nat)
    (system : SystemMemory) (laid : Laid pad base blocks) :
    (pad.alloc size system = some (⟨system.posixMemalign, true⟩, pad) ∧
        ∀ block ∈ blocks, block.isFree = true → block.size < alignUp size) ∨
      ∃ before block after pad', blocks = before ++ block :: after ∧ block.isFree = true ∧
        alignUp size ≤ block.size ∧
        pad.alloc size system = some (⟨some block.payload, false⟩, pad') ∧
        pad'.totalSize = pad.totalSize ∧
        Laid pad' base (before ++ (taken block (alignUp size) ++ after)) := by
  have ready : pad.initializeIfNeeded system = pad := by
    simp [initializeIfNeeded, laid.buffer]
  have enough : blocks.length ≤ pad.totalSize := by
    have bound := laid.tiled.length_le
    omega
  rcases findBlock_correct (alignUp size) laid.represents enough with
    ⟨finished, small⟩ | ⟨before, block, after, rfl, free, large, found⟩
  · left
    exact ⟨by simp only [alloc, ready, laid.head, finished], small⟩
  · right
    refine ⟨before, block, after,
      { pad with headers := takeBlock pad.headers block.address (alignUp size) },
      rfl, free, large, ?_, rfl, ?_⟩
    · simp only [alloc, ready, laid.head, found]
      rfl
    · refine ⟨laid.buffer, ?_, ?_, ?_, ?_⟩
      · rw [laid.head]
        unfold taken
        cases before with
        | nil => split <;> rfl
        | cons head rest => rfl
      · exact represents_take laid.represents laid.tiled.nodup
          fun split => split_fresh laid.tiled split
      · exact tiled_take laid.tiled (alignUp_aligned size)
      · exact coalesced_take laid.coalesced free

end NpuMatmul.Scratchpad
