import NpuMatmul.Memory.AllocRefinement

set_option autoImplicit false

namespace NpuMatmul.Scratchpad

open LinkedHeap Tiling

def Block.absorb (left right : Block) : Block :=
  { left with size := left.size + (sizeofBlockHeader + right.size) }

-- Both coalescing directions are this one edit: left takes over the extent of right.
def absorbHeader (headers : Nat → BlockHeader) (left right : Nat) : Nat → BlockHeader :=
  setPrev
    (Function.update headers left
      { headers left with
        size := (headers left).size + (sizeofBlockHeader + (headers right).size)
        next := (headers right).next })
    (headers right).next (some left)

theorem represents_absorb {headers : Nat → BlockHeader} {before after : List Block}
    {left right : Block} (represents : Represents headers none (before ++ left :: right :: after) none)
    (nodup : ((before ++ left :: right :: after).map Block.address).Nodup) :
    Represents (absorbHeader headers left.address right.address) none
      (before ++ left.absorb right :: after) none := by
  have leftHeader := represents.header
  have regrouped : before ++ left :: right :: after = (before ++ [left]) ++ right :: after := by simp
  have rightHeader := (regrouped ▸ represents).header
  obtain ⟨beforeLeft, afterLeft, beforeAfter⟩ := addresses_around nodup
  have afterTail := nextOf_ne_of_mem_tail (regrouped ▸ nodup)
  have notLeft : ∀ other ∈ after, other.address ≠ left.address :=
    fun other member => afterLeft other (List.mem_cons_of_mem _ member)
  have tail := (represents_cons.mp (represents_cons.mp
    (represents_append.mp represents).2).2).2
  have goal : Represents (absorbHeader headers left.address right.address) none
      (before ++ ([left.absorb right] ++ after)) none := by
    refine represents.splice [left, right] (fun next => rfl) ?_ ?_ ?_
    · intro other member
      have notNext : nextOf after ≠ some other.address :=
        nextOf_ne fun later inside =>
          (beforeAfter other member later (List.mem_cons_of_mem _ inside)).symm
      simp only [absorbHeader, rightHeader, setPrev_of_ne notNext]
      exact Function.update_of_ne (beforeLeft other member) _ _
    · have notNext : nextOf after ≠ some left.address := nextOf_ne notLeft
      refine represents_cons.mpr ⟨?_, trivial⟩
      simp only [absorbHeader, rightHeader, leftHeader, Block.absorb, setPrev_of_ne notNext,
        Function.update_self]
      rfl
    · refine tail.rebase (some left.address) ?_ ?_
      · intro other member
        have inside : other ∈ after := List.mem_of_head? member
        have isNext : nextOf after = some other.address := by
          cases after with
          | nil => simp at inside
          | cons head rest => rw [Option.some.inj member]; rfl
        simp only [absorbHeader, rightHeader, isNext, setPrev_self,
          Function.update_of_ne (notLeft other inside)]
      · intro other member
        have inside : other ∈ after := List.mem_of_mem_tail member
        simp only [absorbHeader, rightHeader, setPrev_of_ne (afterTail other member)]
        exact Function.update_of_ne (notLeft other inside) _ _
  exact goal

theorem tiled_absorb {start stop : Nat} {before after : List Block} {left right : Block}
    (tiled : Tiled start stop (before ++ left :: right :: after)) :
    Tiled start stop (before ++ left.absorb right :: after) := by
  have member : left ∈ before ++ left :: right :: after := by simp
  have goal : Tiled start stop (before ++ ([left.absorb right] ++ after)) := by
    refine tiled.splice [left, right] ?_ ?_ ?_
    · intro first last tiles
      simp only [List.map_cons, List.map_nil, Tiles, Block.extent, Block.absorb] at tiles ⊢
      omega
    · intro other inside
      rw [List.mem_singleton.mp inside]
      exact tiled.aligned left member
    · intro other inside
      rw [List.mem_singleton.mp inside]
      exact tiled.started left member
  exact goal

theorem mergeNext_eq {headers : Nat → BlockHeader} {current next : Nat}
    (link : (headers current).next = some next) (free : (headers next).isFree = true)
    (apart : next ≠ current) : mergeNext headers current = absorbHeader headers current next := by
  simp only [mergeNext, link, free, if_true, modify, Function.update_self, Function.update_idem,
    Function.update_of_ne apart, absorbHeader]

theorem mergePrev_eq {headers : Nat → BlockHeader} {current prev : Nat}
    (link : (headers current).prev = some prev) (free : (headers prev).isFree = true)
    (apart : current ≠ prev) : mergePrev headers current = absorbHeader headers prev current := by
  simp only [mergePrev, link, free, if_true, modify, Function.update_self, Function.update_idem,
    Function.update_of_ne apart, absorbHeader]

def mergedNext (block : Block) : List Block → List Block
  | [] => [block]
  | next :: rest => if next.isFree then block.absorb next :: rest else block :: next :: rest

theorem mergeNext_correct {headers : Nat → BlockHeader} {start stop : Nat}
    {before after : List Block} {block : Block}
    (represents : Represents headers none (before ++ block :: after) none)
    (tiled : Tiled start stop (before ++ block :: after)) :
    Represents (mergeNext headers block.address) none (before ++ mergedNext block after) none ∧
      Tiled start stop (before ++ mergedNext block after) := by
  have header := represents.header
  cases after with
  | nil =>
    have unchanged : mergeNext headers block.address = headers := by
      simp [mergeNext, header]
    rw [unchanged]
    exact ⟨represents, tiled⟩
  | cons next rest =>
    have regrouped : before ++ block :: next :: rest = (before ++ [block]) ++ next :: rest := by simp
    have nextHeader := (regrouped ▸ represents).header
    cases free : next.isFree with
    | true =>
      have apart : next.address ≠ block.address :=
        (addresses_around tiled.nodup).2.1 next (by simp)
      rw [mergeNext_eq (by rw [header]; rfl) (by rw [nextHeader]; exact free) apart]
      simp only [mergedNext, free, if_true]
      exact ⟨represents_absorb represents tiled.nodup, tiled_absorb tiled⟩
    | false =>
      have unchanged : mergeNext headers block.address = headers := by
        simp [mergeNext, header, nextHeader, free]
      rw [unchanged]
      simp only [mergedNext, free, Bool.false_eq_true, if_false]
      exact ⟨represents, tiled⟩

def mergedPrev (before : List Block) (block : Block) (after : List Block) : List Block :=
  match before.getLast? with
  | none => block :: after
  | some prev =>
      if prev.isFree then before.dropLast ++ prev.absorb block :: after
      else before ++ block :: after

theorem mergePrev_correct {headers : Nat → BlockHeader} {start stop : Nat}
    {before after : List Block} {block : Block}
    (represents : Represents headers none (before ++ block :: after) none)
    (tiled : Tiled start stop (before ++ block :: after)) :
    Represents (mergePrev headers block.address) none (mergedPrev before block after) none ∧
      Tiled start stop (mergedPrev before block after) := by
  have header := represents.header
  rcases List.eq_nil_or_concat' before with rfl | ⟨front, prev, rfl⟩
  · have unchanged : mergePrev headers block.address = headers := by
      simp [mergePrev, header, lastAddress]
    rw [unchanged]
    exact ⟨represents, tiled⟩
  · have regrouped : (front ++ [prev]) ++ block :: after = front ++ prev :: block :: after := by simp
    have prevHeader := (regrouped ▸ represents).header
    have link : (headers block.address).prev = some prev.address := by
      simp [header, lastAddress, Block.node]
    cases free : prev.isFree with
    | true =>
      have apart : block.address ≠ prev.address :=
        (addresses_around (regrouped ▸ tiled.nodup)).2.1 block (by simp)
      rw [mergePrev_eq link (by rw [prevHeader]; exact free) apart]
      simp only [mergedPrev, List.getLast?_concat, free, if_true, List.dropLast_concat]
      exact ⟨represents_absorb (regrouped ▸ represents) (regrouped ▸ tiled.nodup),
        tiled_absorb (regrouped ▸ tiled)⟩
    | false =>
      have unchanged : mergePrev headers block.address = headers := by
        simp [mergePrev, link, prevHeader, free]
      rw [unchanged]
      simp only [mergedPrev, List.getLast?_concat, free, Bool.false_eq_true, if_false]
      exact ⟨represents, tiled⟩

def freed (block : Block) : Block := { block with isFree := true }

def released (before : List Block) (block : Block) (after : List Block) : List Block :=
  match mergedNext (freed block) after with
  | [] => before
  | head :: rest => mergedPrev before head rest

theorem represents_freed {headers : Nat → BlockHeader} {before after : List Block} {block : Block}
    (represents : Represents headers none (before ++ block :: after) none)
    (nodup : ((before ++ block :: after).map Block.address).Nodup) :
    Represents (modify headers block.address fun header => { header with isFree := true }) none
      (before ++ freed block :: after) none := by
  have header := represents.header
  obtain ⟨left, right, -⟩ := addresses_around nodup
  have tail := (represents_cons.mp (represents_append.mp represents).2).2
  have goal : Represents (modify headers block.address fun header => { header with isFree := true })
      none (before ++ ([freed block] ++ after)) none := by
    refine represents.splice [block] (fun next => rfl) ?_ ?_ ?_
    · exact fun other member => Function.update_of_ne (left other member) _ _
    · refine represents_cons.mpr ⟨?_, trivial⟩
      change Function.update headers block.address _ block.address = _
      rw [Function.update_self, header]
      rfl
    · exact tail.congr fun other member => Function.update_of_ne (right other member) _ _
  exact goal

theorem tiled_freed {start stop : Nat} {before after : List Block} {block : Block}
    (tiled : Tiled start stop (before ++ block :: after)) :
    Tiled start stop (before ++ freed block :: after) := by
  have member : block ∈ before ++ block :: after := by simp
  have goal : Tiled start stop (before ++ ([freed block] ++ after)) :=
    tiled.splice [block] (fun _ _ tiles => tiles)
      (fun other inside => (List.mem_singleton.mp inside) ▸ tiled.aligned block member)
      (fun other inside => (List.mem_singleton.mp inside) ▸ tiled.started block member)
  exact goal

theorem mergedNext_cons (block : Block) (after : List Block) :
    ∃ head rest, mergedNext block after = head :: rest ∧ head.address = block.address ∧
      head.isFree = block.isFree := by
  cases after with
  | nil => exact ⟨block, [], rfl, rfl, rfl⟩
  | cons next rest =>
    cases free : next.isFree
    · exact ⟨block, next :: rest, by simp [mergedNext, free], rfl, rfl⟩
    · exact ⟨block.absorb next, rest, by simp [mergedNext, free], rfl, rfl⟩

theorem releaseBlock_correct {headers : Nat → BlockHeader} {start stop : Nat}
    {before after : List Block} {block : Block}
    (represents : Represents headers none (before ++ block :: after) none)
    (tiled : Tiled start stop (before ++ block :: after)) :
    Represents (releaseBlock headers block.address) none (released before block after) none ∧
      Tiled start stop (released before block after) := by
  have marked := represents_freed represents tiled.nodup
  obtain ⟨merged, mergedTiled⟩ := mergeNext_correct marked (tiled_freed tiled)
  obtain ⟨head, rest, shape, address, -⟩ := mergedNext_cons (freed block) after
  rw [shape] at merged mergedTiled
  have result := mergePrev_correct merged mergedTiled
  rw [address] at result
  simp only [released, shape]
  exact result

theorem coalesced_cons {block : Block} {rest : List Block} :
    Coalesced (block :: rest) ↔
      (∀ next ∈ rest.head?, ¬ (block.isFree = true ∧ next.isFree = true)) ∧ Coalesced rest :=
  List.isChain_cons

theorem coalesced_mergedNext {after : List Block} (block : Block)
    (coalesced : Coalesced after) : Coalesced (mergedNext block after) := by
  cases after with
  | nil => exact List.isChain_singleton _
  | cons next rest =>
    obtain ⟨seam, tail⟩ := coalesced_cons.mp coalesced
    cases free : next.isFree with
    | true =>
      simp only [mergedNext, free, if_true]
      refine coalesced_cons.mpr ⟨?_, tail⟩
      intro following member both
      exact seam following member ⟨free, both.2⟩
    | false =>
      simp only [mergedNext, free, Bool.false_eq_true, if_false]
      refine coalesced_cons.mpr ⟨?_, coalesced⟩
      intro following member both
      rw [Option.some.inj member] at free
      simp [free] at both

theorem coalesced_released {before after : List Block} {block : Block}
    (coalesced : Coalesced (before ++ block :: after)) :
    Coalesced (released before block after) := by
  obtain ⟨left, right, -⟩ := coalesced_append.mp coalesced
  obtain ⟨-, tail⟩ := coalesced_cons.mp right
  have merged := coalesced_mergedNext (freed block) tail
  obtain ⟨head, rest, shape, -, free⟩ := mergedNext_cons (freed block) after
  rw [shape] at merged
  simp only [released, shape]
  obtain ⟨seam, -⟩ := coalesced_cons.mp merged
  rcases List.eq_nil_or_concat' before with rfl | ⟨front, prev, rfl⟩
  · exact merged
  · obtain ⟨frontCoalesced, -, join⟩ := coalesced_append.mp left
    cases prevFree : prev.isFree with
    | true =>
      simp only [mergedPrev, List.getLast?_concat, prevFree, if_true, List.dropLast_concat]
      refine coalesced_append.mpr ⟨frontCoalesced, ?_, ?_⟩
      · refine coalesced_cons.mpr ⟨?_, (coalesced_cons.mp merged).2⟩
        intro following member both
        exact seam following member ⟨free, both.2⟩
      · intro last lastMember first firstMember both
        rw [← Option.some.inj firstMember] at both
        exact join last lastMember prev rfl both
    | false =>
      simp only [mergedPrev, List.getLast?_concat, prevFree, Bool.false_eq_true, if_false]
      refine coalesced_append.mpr ⟨left, merged, ?_⟩
      intro last lastMember first firstMember both
      rw [List.getLast?_concat] at lastMember
      rw [← Option.some.inj lastMember, prevFree] at both
      simp at both

def occupied (blocks : List Block) : List Block := blocks.filter fun block => !block.isFree

@[simp] theorem occupied_append (left right : List Block) :
    occupied (left ++ right) = occupied left ++ occupied right := List.filter_append ..

@[simp] theorem occupied_cons (block : Block) (rest : List Block) :
    occupied (block :: rest) = (if block.isFree then [] else [block]) ++ occupied rest := by
  cases free : block.isFree <;> simp [occupied, free]

@[simp] theorem occupied_nil : occupied [] = [] := rfl

theorem mem_occupied {block : Block} {blocks : List Block} :
    block ∈ occupied blocks ↔ block ∈ blocks ∧ block.isFree = false := by
  simp [occupied]

theorem occupied_taken (block : Block) (size : Nat) :
    ∃ head, occupied (taken block size) = [head] ∧ head.address = block.address ∧
      (size ≤ block.size → size ≤ head.size) := by
  unfold taken
  split
  · exact ⟨{ block with size := size, isFree := false }, by simp, rfl, fun _ => Nat.le_refl _⟩
  · exact ⟨{ block with isFree := false }, by simp, rfl, id⟩

theorem occupied_mergedNext (block : Block) (free : block.isFree = true) (after : List Block) :
    occupied (mergedNext block after) = occupied after := by
  cases after with
  | nil => simp [mergedNext, free]
  | cons next rest => cases nextFree : next.isFree <;> simp [mergedNext, nextFree, free, Block.absorb]

theorem occupied_released (before after : List Block) (block : Block) :
    occupied (released before block after) = occupied before ++ occupied after := by
  have merged := occupied_mergedNext (freed block) rfl after
  obtain ⟨head, rest, shape, -, free⟩ := mergedNext_cons (freed block) after
  rw [shape, occupied_cons, free] at merged
  simp only [freed, if_true, List.nil_append] at merged
  have headFree : head.isFree = true := free
  simp only [released, shape]
  rcases List.eq_nil_or_concat' before with rfl | ⟨front, prev, rfl⟩
  · simp [mergedPrev, headFree, merged]
  · cases prevFree : prev.isFree <;>
      simp [mergedPrev, prevFree, headFree, merged, Block.absorb]

theorem nextOf_released (before after : List Block) (block : Block) :
    nextOf (released before block after) = nextOf (before ++ block :: after) := by
  obtain ⟨head, rest, shape, address, -⟩ := mergedNext_cons (freed block) after
  simp only [released, shape]
  rcases List.eq_nil_or_concat' before with rfl | ⟨front, prev, rfl⟩
  · simp only [mergedPrev, List.getLast?_nil, nextOf_cons, List.nil_append, address]
    rfl
  · simp only [mergedPrev, List.getLast?_concat, List.dropLast_concat]
    split <;> cases front <;> rfl

theorem Laid.owns {pad : Scratchpad} {base : Nat} {blocks : List Block}
    (laid : Laid pad base blocks) (pointer : Nat) :
    pad.owns pointer = true ↔ base ≤ pointer ∧ pointer < base + pad.totalSize := by
  simp [Scratchpad.owns, laid.buffer]

theorem Laid.owns_payload {pad : Scratchpad} {base : Nat} {blocks : List Block}
    (laid : Laid pad base blocks) {block : Block} (member : block ∈ blocks) :
    pad.owns block.payload = true := by
  have started := laid.tiled.started block member
  have inside := (laid.tiled.inside member).1
  refine (laid.owns _).mpr ⟨?_, started⟩
  simp only [Block.payload]
  omega

theorem free_laid {pad : Scratchpad} {base : Nat} {before after : List Block} {block : Block}
    (laid : Laid pad base (before ++ block :: after)) :
    (pad.free (some block.payload)).2 = none ∧
      (pad.free (some block.payload)).1.totalSize = pad.totalSize ∧
      Laid (pad.free (some block.payload)).1 base (released before block after) := by
  have owned := laid.owns_payload (show block ∈ before ++ block :: after by simp)
  have address : block.payload - sizeofBlockHeader = block.address := by
    simp [Block.payload]
  obtain ⟨represents, tiled⟩ := releaseBlock_correct laid.represents laid.tiled
  simp only [Scratchpad.free, owned, if_true, address]
  refine ⟨trivial, trivial, laid.buffer, ?_, represents, tiled, coalesced_released laid.coalesced⟩
  rw [nextOf_released]
  exact laid.head

end NpuMatmul.Scratchpad
