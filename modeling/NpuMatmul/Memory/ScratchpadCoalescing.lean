import NpuMatmul.Memory.ScratchpadSafety

set_option autoImplicit false

namespace NpuMatmul.Scratchpad

open LinkedHeap Tiling Relation

def NoFreeNeighbours (pad : Scratchpad) : Prop :=
  ∀ address next, pad.Listed address → (pad.headers address).next = some next →
    ¬ ((pad.headers address).isFree = true ∧ (pad.headers next).isFree = true)

def FreeStretch (pad : Scratchpad) (first last : Nat) : Prop :=
  pad.Listed first ∧ ∃ addresses,
    Path (fun a => (pad.headers a).next) first last addresses ∧
      ∀ address ∈ addresses, (pad.headers address).isFree = true

-- What one allocation could use if the stretch were a single block.
def stretchPayload (pad : Scratchpad) (first last : Nat) : Nat :=
  last + sizeofBlockHeader + (pad.headers last).size - (first + sizeofBlockHeader)

theorem coalesced_around {before after : List Block} {block : Block}
    (coalesced : Coalesced (before ++ block :: after)) :
    ∀ next ∈ after.head?, ¬ (block.isFree = true ∧ next.isFree = true) :=
  (coalesced_cons.mp (coalesced_append.mp coalesced).2.1).1

theorem noFreeNeighbours_of_laid {pad : Scratchpad} {base : Nat} {blocks : List Block}
    (laid : Laid pad base blocks) : pad.NoFreeNeighbours := by
  intro address next listed link both
  obtain ⟨block, member, rfl⟩ := (laid.listed_iff address).mp listed
  obtain ⟨before, after, rfl⟩ := List.append_of_mem member
  have header := laid.represents.header
  rw [header] at link both
  cases after with
  | nil => simp at link
  | cons following rest =>
    have regrouped : before ++ block :: following :: rest =
        (before ++ [block]) ++ following :: rest := by simp
    have nextHeader := (regrouped ▸ laid.represents).header
    have same : following.address = next := Option.some.inj link
    rw [← same, nextHeader] at both
    exact coalesced_around laid.coalesced following rfl both

theorem stretch_single {pad : Scratchpad} (neighbours : pad.NoFreeNeighbours) {first last : Nat}
    (stretch : pad.FreeStretch first last) :
    first = last ∧ (pad.headers first).isFree = true := by
  obtain ⟨listed, addresses, path, free⟩ := stretch
  cases path with
  | single => exact ⟨rfl, free first (by simp)⟩
  | cons _ following _ rest link tail =>
    have followingMember : following ∈ rest := by cases tail <;> simp
    exact absurd ⟨free first (by simp), free following (by simp [followingMember])⟩
      (neighbours first following listed link)

theorem stretchPayload_single (pad : Scratchpad) (address : Nat) :
    pad.stretchPayload address address = (pad.headers address).size := by
  simp only [stretchPayload]
  omega

theorem alloc_fallback_iff {pad : Scratchpad} {base size : Nat} {blocks : List Block}
    (laid : Laid pad base blocks) (system : SystemMemory) :
    ∃ result pad', pad.alloc size system = some (result, pad') ∧
      (result.fromHeap = true ↔
        ¬ ∃ first last, pad.FreeStretch first last ∧
          alignUp size ≤ pad.stretchPayload first last) := by
  rcases alloc_laid size system laid with
    ⟨answer, small⟩ | ⟨before, block, after, pad', shape, free, room, answer, -, -⟩
  · refine ⟨_, _, answer, ?_⟩
    simp only [true_iff]
    rintro ⟨first, last, stretch, enough⟩
    obtain ⟨rfl, free⟩ := stretch_single (noFreeNeighbours_of_laid laid) stretch
    obtain ⟨block, member, rfl⟩ := (laid.listed_iff first).mp stretch.1
    obtain ⟨before, after, rfl⟩ := List.append_of_mem member
    have header := laid.represents.header
    rw [header] at free
    have bound := small block member free
    rw [stretchPayload_single, header] at enough
    exact absurd enough (Nat.not_le.mpr bound)
  · refine ⟨_, _, answer, ?_⟩
    subst shape
    have header := laid.represents.header
    have listed : pad.Listed block.address := (laid.listed_iff _).mpr ⟨block, by simp, rfl⟩
    have stretch : pad.FreeStretch block.address block.address :=
      ⟨listed, [block.address], .single _, by simp [header, free]⟩
    simp only [Bool.false_eq_true, false_iff, not_not]
    exact ⟨_, _, stretch, by rw [stretchPayload_single, header]; exact room⟩

theorem single_block {start stop : Nat} {blocks : List Block} (tiled : Tiled start stop blocks)
    (room : start < stop) (coalesced : Coalesced blocks) (empty : occupied blocks = []) :
    blocks = [⟨start, stop - start - sizeofBlockHeader, true⟩] := by
  have free : ∀ block ∈ blocks, block.isFree = true := by
    intro block member
    refine eq_true_of_ne_false fun taken => ?_
    have inside := mem_occupied.mpr ⟨member, taken⟩
    simp [empty] at inside
  cases blocks with
  | nil =>
    have covered : start = stop := tiled.tiles
    omega
  | cons block rest =>
    cases rest with
    | nil =>
      obtain ⟨address, covered⟩ := tiled.tiles
      simp only [List.map_nil, Tiles, Block.extent] at address covered
      obtain ⟨place, size, state⟩ := block
      have isFree : state = true := free ⟨place, size, state⟩ (by simp)
      simp only [List.cons.injEq, Block.mk.injEq, and_true]
      simp only at address covered
      exact ⟨address, by omega, isFree⟩
    | cons next rest =>
      have seam := (coalesced_cons.mp coalesced).1 next rfl
      exact absurd ⟨free block (by simp), free next (by simp)⟩ seam

-- In any state a run reaches with an arena in place: neighbours are never both free, alloc goes
-- to the heap exactly when no contiguous free stretch is long enough, and with no arena allocation
-- left the list is the one initial block again.
theorem scratchpad_coalesces {totalSize : Nat} {headers : Nat → BlockHeader} {session : Session}
    {base : Nat} (large : 2 * sizeofBlockHeader ≤ totalSize)
    (run : ReflTransGen Session.Step (Session.start totalSize headers) session)
    (initialised : session.pad.memoryBuffer = some base) :
    session.pad.NoFreeNeighbours ∧
      (∀ size system, size + 127 < 2 ^ 64 →
        ∃ result pad', session.pad.alloc size system = some (result, pad') ∧
          (result.fromHeap = true ↔
            ¬ ∃ first last, session.pad.FreeStretch first last ∧
              alignUp size ≤ session.pad.stretchPayload first last)) ∧
      ((∀ allocation ∈ session.live, allocation.fromHeap = true) →
        session.pad.headBlock = some base ∧
          session.pad.headers base = ⟨totalSize - sizeofBlockHeader, true, none, none⟩) := by
  have inv := invariant_run large run
  cases inv.arena with
  | absent buffer head empty => simp [buffer] at initialised
  | present start blocks fits =>
    have same : start = base := by
      have known := fits.laid.buffer
      rw [initialised] at known
      exact (Option.some.inj known).symm
    subst same
    refine ⟨noFreeNeighbours_of_laid fits.laid,
      fun size system _ => alloc_fallback_iff fits.laid system, ?_⟩
    intro freed
    have none : arenaPointers session.live = [] := by
      simp only [arenaPointers, List.map_eq_nil_iff, List.filter_eq_nil_iff]
      intro allocation member
      simp [freed allocation member]
    have empty : occupied blocks = [] := by
      have pointers := fits.pointers
      rw [none] at pointers
      exact List.map_eq_nil_iff.mp pointers.symm.eq_nil
    have room : start < start + session.pad.totalSize := by
      have size := inv.size
      simp only [sizeofBlockHeader] at large
      omega
    have shape := single_block fits.laid.tiled room fits.laid.coalesced empty
    have laid := fits.laid
    rw [shape] at laid
    have header := (represents_cons.mp laid.represents).1
    have total : start + session.pad.totalSize - start = totalSize := by
      have size := inv.size
      omega
    rw [total] at header
    exact ⟨laid.head, header⟩

theorem scratchpad_coalesces_sample :
    reusedSession.pad.NoFreeNeighbours ∧
      (∀ size system, size + 127 < 2 ^ 64 →
        ∃ result pad', reusedSession.pad.alloc size system = some (result, pad') ∧
          (result.fromHeap = true ↔
            ¬ ∃ first last, reusedSession.pad.FreeStretch first last ∧
              alignUp size ≤ reusedSession.pad.stretchPayload first last)) ∧
      ((∀ allocation ∈ reusedSession.live, allocation.fromHeap = true) →
        reusedSession.pad.headBlock = some 4096 ∧
          reusedSession.pad.headers 4096 = ⟨1024 - sizeofBlockHeader, true, none, none⟩) :=
  scratchpad_coalesces (by decide) reused_run rfl

end NpuMatmul.Scratchpad
