import NpuMatmul.FixedPoint.BlockAccesses

set_option autoImplicit false

namespace NpuMatmul

open LoopNest Loop

def Access.written (array : BlockArray) : Access → Option Nat
  | .writes target index => if target = array then some index else none
  | .reads _ _ => none

def writtenTo (array : BlockArray) (accesses : List Access) : List Nat :=
  accesses.filterMap (Access.written array)

def Access.Inside (entries : Entries) : Access → Prop
  | .reads array index | .writes array index => index < entries.length array

namespace BlockShape

variable {shape : BlockShape} {F : Type}

section Unified

open Access

theorem fitAccesses_unified : shape.fitAccesses =
    nest shape.lanes shape.numBlocks fun lane block =>
      loop (shape.count block) (fun i => [reads .floats (shape.element lane block i)]) ++
        statAccesses (shape.blockFlatIdx lane block) (shape.count block) := by
  obtain ⟨rows, cols, blockSize, blockColumns⟩ := shape
  cases blockColumns with
  | false => rfl
  | true =>
      simp only [fitAccesses, fitRowsAccesses, Nat.add_assoc, if_true]
      rfl

-- The codes are rounded into the mantissa and centred there, or rounded into columnMantissa.
def encodeBlockAccesses (shape : BlockShape) (arguments : EncodeArguments F) (lane block : Nat) :
    List Access :=
  let count := shape.count block
  let buffer := BlockArray.temporaryBuffer shape.laneLength
  precisionAccesses arguments (shape.blockFlatIdx lane block) ++
    loop count (fun i => [reads .floats (shape.element lane block i), writes buffer i]) ++
    (if shape.blockColumns then roundAccesses buffer .mantissa (shape.element lane block 0) count
      else roundAccesses buffer (.columnMantissa count) 0 count) ++
    [reads .means (shape.blockFlatIdx lane block)] ++
    loop count fun i =>
      [if shape.blockColumns then reads .mantissa (shape.element lane block i)
        else reads (.columnMantissa count) i,
        writes .mantissa (shape.element lane block i)]

theorem encodeAccesses_unified (arguments : EncodeArguments F) : shape.encodeAccesses arguments =
    nest shape.lanes shape.numBlocks (shape.encodeBlockAccesses arguments) := by
  obtain ⟨rows, cols, blockSize, blockColumns⟩ := shape
  cases blockColumns with
  | false =>
      have place (lane block i : Nat) : block * blockSize * cols + lane + i * cols =
          (block * blockSize + i) * cols + lane := by ring
      simp only [encodeAccesses, encodeColumnsAccesses, place]
      rfl
  | true =>
      simp only [encodeAccesses, encodeRowsAccesses, Nat.add_assoc, if_true]
      rfl

theorem decodeAccesses_unified (product : Bool) : shape.decodeAccesses product =
    nest shape.lanes shape.numBlocks fun lane block =>
      [reads .exponents (shape.blockFlatIdx lane block),
          reads .precisions (shape.blockFlatIdx lane block)] ++
        (if product then [reads .means (shape.blockFlatIdx lane block)] else []) ++
        loop (shape.count block) fun i => [reads .mantissa (shape.element lane block i)] ++
          (if product then [] else [reads .means (shape.blockFlatIdx lane block)]) ++
          [writes .floats (shape.element lane block i)] := by
  obtain ⟨rows, cols, blockSize, blockColumns⟩ := shape
  cases blockColumns <;> rfl

end Unified

section Places

theorem elements_enumerated (positive : 0 < shape.blockSize) :
    Enumerates shape.lanes shape.numBlocks shape.count shape.element (shape.rows * shape.cols) where
  below := by
    intro lane below block _ offset within
    have inside := offset_inside within
    unfold lanes at below
    unfold laneLength at inside
    unfold element flatIndex
    cases orientation : shape.blockColumns <;> simp only [orientation] at below inside ⊢
    · exact rowMajor_lt inside below
    · exact rowMajor_lt below inside
  apart := by
    intro lane below block _ offset within lane' below' block' _ offset' within' same
    exact element_injective below below' within within' same
  covers := by
    intro e below
    obtain ⟨row, column, split⟩ := rowMajor_split below
    obtain ⟨lane, position, laneBelow, inside, place⟩ : ∃ lane position, lane < shape.lanes ∧
        position < shape.laneLength ∧ shape.flatIndex lane position = e := by
      unfold lanes laneLength flatIndex
      cases shape.blockColumns with
      | false => exact ⟨e % shape.cols, e / shape.cols, column, row, split⟩
      | true => exact ⟨e / shape.cols, e % shape.cols, row, column, split⟩
    obtain ⟨block, offset, blockBelow, within, position_eq⟩ := element_covers positive inside
    exact ⟨lane, laneBelow, block, blockBelow, offset, within, by rw [element, position_eq, place]⟩

theorem blocks_enumerated :
    Enumerates shape.lanes shape.numBlocks (fun _ => 1)
      (fun lane block _ => shape.blockFlatIdx lane block) (shape.lanes * shape.numBlocks) where
  below := by
    intro lane below block inside _ _
    unfold blockFlatIdx lanes at *
    cases orientation : shape.blockColumns with
    | false =>
        simp only [orientation, Bool.false_eq_true, if_false] at below ⊢
        rw [Nat.mul_comm shape.cols]
        exact rowMajor_lt inside below
    | true =>
        simp only [orientation, if_true] at below ⊢
        exact rowMajor_lt below inside
  apart := by
    intro lane below block inside k one lane' below' block' inside' k' one' same
    obtain ⟨lanes, blocks⟩ := blockFlatIdx_injective below below' inside inside' same
    exact ⟨lanes, blocks, by omega⟩
  covers := by
    intro e below
    unfold blockFlatIdx lanes at *
    cases orientation : shape.blockColumns with
    | false =>
        simp only [orientation, Bool.false_eq_true, if_false] at below ⊢
        rw [Nat.mul_comm] at below
        obtain ⟨block, lane, split⟩ := rowMajor_split below
        exact ⟨e % shape.cols, lane, e / shape.cols, block, 0, Nat.one_pos, split⟩
    | true =>
        simp only [orientation, if_true] at below ⊢
        obtain ⟨lane, block, split⟩ := rowMajor_split below
        exact ⟨e / shape.numBlocks, lane, e % shape.numBlocks, block, 0, Nat.one_pos, split⟩

end Places

section Bounds

theorem numBlocks_le (positive : 0 < shape.blockSize) : shape.numBlocks ≤ shape.laneLength := by
  unfold numBlocks
  cases length : shape.laneLength with
  | zero => exact le_of_eq (Nat.div_eq_of_lt (by omega))
  | succ n =>
      apply Nat.div_le_of_le_mul
      have more : n ≤ shape.blockSize * n := Nat.le_mul_of_pos_left n positive
      rw [Nat.mul_succ]
      omega

theorem lanes_mul_laneLength : shape.lanes * shape.laneLength = shape.rows * shape.cols := by
  unfold lanes laneLength
  cases shape.blockColumns with
  | false => exact Nat.mul_comm shape.cols shape.rows
  | true => rfl

def entries (shape : BlockShape) : Entries :=
  { elements := shape.rows * shape.cols, blocks := shape.lanes * shape.numBlocks }

theorem construct_eq (positive : 0 < shape.blockSize) (product : shape.rows * shape.cols < 2 ^ 31)
    (sum : shape.laneLength + shape.blockSize < 2 ^ 31) :
    shape.construct = some shape.entries := by
  have blocks : shape.lanes * shape.numBlocks < 2 ^ 31 := by
    have fewer := Nat.mul_le_mul_left shape.lanes (numBlocks_le positive)
    rw [lanes_mul_laneLength] at fewer
    omega
  have total : (if shape.blockColumns then
      shape.rows * ((shape.laneLength + shape.blockSize - 1) / shape.blockSize)
      else (shape.laneLength + shape.blockSize - 1) / shape.blockSize * shape.cols) =
      shape.lanes * shape.numBlocks := by
    unfold lanes numBlocks
    split
    next => rfl
    next => exact Nat.mul_comm _ _
  have first : checkedInt (shape.rows * shape.cols) = some _ := if_pos product
  have second : checkedInt ((if shape.blockColumns then shape.cols else shape.rows) +
      shape.blockSize) = some (shape.laneLength + shape.blockSize) := if_pos sum
  have third : checkedInt (shape.lanes * shape.numBlocks) = some _ := if_pos blocks
  simp only [construct, first, second, Option.bind_eq_bind, Option.bind_some, total, third, entries]

theorem inside_nest {n m : Nat} {body : Nat → Nat → List Access} {entries : Entries}
    (inside : ∀ i < n, ∀ j < m, ∀ access ∈ body i j, access.Inside entries) :
    ∀ access ∈ nest n m body, access.Inside entries := by
  intro access member
  obtain ⟨i, row, j, column, member⟩ := mem_nest.mp member
  exact inside i row j column access member

theorem inside_loop {n : Nat} {body : Nat → List Access} {entries : Entries}
    (inside : ∀ i < n, ∀ access ∈ body i, access.Inside entries) :
    ∀ access ∈ loop n body, access.Inside entries := by
  intro access member
  obtain ⟨i, below, member⟩ := mem_loop.mp member
  exact inside i below access member

theorem statAccesses_inside {entries : Entries} {blockFlatIdx : Nat} (blockN : Nat)
    (below : blockFlatIdx < entries.blocks) :
    ∀ access ∈ statAccesses blockFlatIdx blockN, access.Inside entries := by
  unfold statAccesses
  split <;> simp [Access.Inside, Entries.length, below]

theorem precisionAccesses_inside {entries : Entries} {blockFlatIdx : Nat}
    (arguments : EncodeArguments F) (below : blockFlatIdx < entries.blocks) :
    ∀ access ∈ precisionAccesses arguments blockFlatIdx, access.Inside entries := by
  unfold precisionAccesses
  split <;> split <;> simp [Access.Inside, Entries.length, below]

theorem roundAccesses_inside {entries : Entries} {input output : BlockArray} {base arraySize : Nat}
    (from_input : ∀ i < arraySize, i < entries.length input)
    (to_output : ∀ i < arraySize, base + i < entries.length output) :
    ∀ access ∈ roundAccesses input output base arraySize, access.Inside entries := by
  refine List.forall_mem_append.mpr ⟨inside_loop fun group below => inside_loop fun j few => ?_,
    inside_loop fun i below => ?_⟩
  · have source := from_input (4 * group + j) (by omega)
    have target := to_output (4 * group + j) (by omega)
    exact List.forall_mem_cons.mpr ⟨source, List.forall_mem_cons.mpr
      ⟨few, List.forall_mem_singleton.mpr target⟩⟩
  · have source := from_input (arraySize / 4 * 4 + i) (by omega)
    have target := to_output (arraySize / 4 * 4 + i) (by omega)
    exact List.forall_mem_cons.mpr ⟨source, List.forall_mem_singleton.mpr target⟩

theorem element_from_base (rowsFirst : shape.blockColumns = true) (lane block i : Nat) :
    shape.element lane block 0 + i = shape.element lane block i := by
  simp [element, flatIndex, rowsFirst, Nat.add_assoc]

theorem count_le_laneLength (shape : BlockShape) (block : Nat) :
    shape.count block ≤ shape.laneLength := by
  unfold count stop
  split <;> omega

section Methods

variable (positive : 0 < shape.blockSize)

include positive

theorem fitAccesses_inside : ∀ access ∈ shape.fitAccesses, access.Inside shape.entries := by
  rw [fitAccesses_unified]
  refine inside_nest fun lane below block inside => List.forall_mem_append.mpr ⟨?_, ?_⟩
  · refine inside_loop fun i within => ?_
    exact List.forall_mem_singleton.mpr
      ((elements_enumerated positive).below lane below block inside i within)
  · exact statAccesses_inside _ (blocks_enumerated.below lane below block inside 0 Nat.one_pos)

theorem encodeAccesses_inside (arguments : EncodeArguments F) :
    ∀ access ∈ shape.encodeAccesses arguments, access.Inside shape.entries := by
  rw [encodeAccesses_unified]
  refine inside_nest fun lane below block inside => ?_
  have block_below := blocks_enumerated.below lane below block inside 0 Nat.one_pos
  have element_below := (elements_enumerated positive).below lane below block inside
  have short := shape.count_le_laneLength block
  have buffered : ∀ i < shape.count block,
      i < shape.entries.length (.temporaryBuffer shape.laneLength) := fun i within =>
    within.trans_le short
  simp only [encodeBlockAccesses, List.forall_mem_append]
  refine ⟨⟨⟨⟨precisionAccesses_inside arguments block_below, ?_⟩, ?_⟩, ?_⟩, ?_⟩
  · refine inside_loop fun i within => ?_
    exact List.forall_mem_cons.mpr
      ⟨element_below i within, List.forall_mem_singleton.mpr (buffered i within)⟩
  · cases orientation : shape.blockColumns with
    | false =>
        refine roundAccesses_inside buffered fun i within => ?_
        rw [Nat.zero_add]
        exact within
    | true =>
        refine roundAccesses_inside buffered fun i within => ?_
        rw [element_from_base orientation]
        exact element_below i within
  · exact List.forall_mem_singleton.mpr block_below
  · refine inside_loop fun i within => ?_
    refine List.forall_mem_cons.mpr ⟨?_, List.forall_mem_singleton.mpr (element_below i within)⟩
    cases shape.blockColumns with
    | false => exact within
    | true => exact element_below i within

theorem decodeAccesses_inside (product : Bool) :
    ∀ access ∈ shape.decodeAccesses product, access.Inside shape.entries := by
  rw [decodeAccesses_unified]
  refine inside_nest fun lane below block inside => ?_
  have block_below := blocks_enumerated.below lane below block inside 0 Nat.one_pos
  have element_below := (elements_enumerated positive).below lane below block inside
  have mean : ∀ access ∈ [Access.reads .means (shape.blockFlatIdx lane block)],
      access.Inside shape.entries := List.forall_mem_singleton.mpr block_below
  have first : ∀ access ∈ [Access.reads .exponents (shape.blockFlatIdx lane block),
      .reads .precisions (shape.blockFlatIdx lane block)], access.Inside shape.entries :=
    List.forall_mem_cons.mpr ⟨block_below, List.forall_mem_singleton.mpr block_below⟩
  simp only [List.forall_mem_append]
  refine ⟨⟨first, ?_⟩, inside_loop fun i within => ?_⟩
  · cases product with
    | false => simp
    | true => exact mean
  · have place := element_below i within
    simp only [List.forall_mem_append]
    refine ⟨⟨List.forall_mem_singleton.mpr place, ?_⟩, List.forall_mem_singleton.mpr place⟩
    cases product with
    | false => exact mean
    | true => simp

end Methods

end Bounds

end BlockShape

end NpuMatmul
