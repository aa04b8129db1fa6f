import NpuMatmul.FixedPoint.AccessBounds

set_option autoImplicit false

namespace NpuMatmul

open LoopNest

section Written

variable {array : BlockArray} {first rest : List Access} {n m : Nat}

@[simp] theorem writtenTo_append :
    writtenTo array (first ++ rest) = writtenTo array first ++ writtenTo array rest := by
  simp [writtenTo, List.filterMap_append]

theorem writtenTo_loop (body : Nat → List Access) :
    writtenTo array (loop n body) = loop n fun i => writtenTo array (body i) :=
  filterMap_loop _

theorem writtenTo_nest (body : Nat → Nat → List Access) :
    writtenTo array (nest n m body) = nest n m fun i j => writtenTo array (body i j) :=
  filterMap_nest _

@[simp] theorem writtenTo_nil : writtenTo array [] = [] := rfl

@[simp] theorem writtenTo_reads (other : BlockArray) (index : Nat) :
    writtenTo array (.reads other index :: rest) = writtenTo array rest :=
  List.filterMap_cons_none rfl

@[simp] theorem writtenTo_writes (target : BlockArray) (index : Nat) :
    writtenTo array (.writes target index :: rest) =
      if target = array then index :: writtenTo array rest else writtenTo array rest := by
  by_cases same : target = array <;> simp [writtenTo, Access.written, same]

theorem loop_nothing (n : Nat) : (loop n fun _ => ([] : List Nat)) = [] := by
  simp [loop]

end Written

namespace BlockShape

variable {shape : BlockShape} {F : Type} {array : BlockArray}

theorem writtenTo_roundAccesses (input output : BlockArray) (base arraySize : Nat) :
    writtenTo array (roundAccesses input output base arraySize) =
      if output = array then (List.range arraySize).map (base + ·) else [] := by
  have whole : 4 * (arraySize / 4) + (arraySize - 4 * (arraySize / 4)) = arraySize := by omega
  simp only [roundAccesses, writtenTo_append, writtenTo_loop, writtenTo_reads, writtenTo_writes,
    writtenTo_nil, Nat.mul_comm (arraySize / 4) 4]
  split
  next =>
    have groups := loop_groups 4 (arraySize / 4) (base + ·)
    have rest := loop_rest (4 * (arraySize / 4)) (arraySize - 4 * (arraySize / 4)) (base + ·)
    rw [groups, rest, whole]
  next => simp [loop_nothing]

theorem writtenTo_precisionAccesses (arguments : EncodeArguments F) (blockFlatIdx : Nat) :
    writtenTo array (precisionAccesses arguments blockFlatIdx) =
      if .precisions = array then [blockFlatIdx] else [] := by
  unfold precisionAccesses
  split <;> split <;> simp

theorem writtenTo_statAccesses (blockFlatIdx blockN : Nat)
    (filled : array = .exponents ∨ array = .means ∨ array = .stdDevs) :
    writtenTo array (statAccesses blockFlatIdx blockN) = [blockFlatIdx] := by
  unfold statAccesses
  obtain rfl | rfl | rfl := filled <;> split <;> simp

def blockPass (shape : BlockShape) : List Nat :=
  nest shape.lanes shape.numBlocks fun lane block => [shape.blockFlatIdx lane block]

def elementPass (shape : BlockShape) : List Nat :=
  nest shape.lanes shape.numBlocks fun lane block =>
    (List.range (shape.count block)).map (shape.element lane block)

theorem blockPass_perm : shape.blockPass.Perm (List.range shape.entries.blocks) :=
  blocks_enumerated.perm

theorem elementPass_perm (positive : 0 < shape.blockSize) :
    shape.elementPass.Perm (List.range shape.entries.elements) :=
  (elements_enumerated positive).perm

theorem writtenTo_fitAccesses (array : BlockArray)
    (filled : array = .exponents ∨ array = .means ∨ array = .stdDevs) :
    writtenTo array shape.fitAccesses = shape.blockPass := by
  rw [fitAccesses_unified, writtenTo_nest]
  refine nest_congr fun lane _ block _ => ?_
  rw [writtenTo_append, writtenTo_loop, writtenTo_statAccesses _ _ filled]
  simp [loop_nothing]

theorem writtenTo_encodeAccesses_precisions (arguments : EncodeArguments F) :
    writtenTo .precisions (shape.encodeAccesses arguments) = shape.blockPass := by
  rw [encodeAccesses_unified, writtenTo_nest]
  refine nest_congr fun lane _ block _ => ?_
  simp only [encodeBlockAccesses, writtenTo_append, writtenTo_loop, writtenTo_precisionAccesses]
  cases shape.blockColumns <;> simp [writtenTo_roundAccesses, loop_nothing]

theorem writtenTo_encodeAccesses_mantissa (arguments : EncodeArguments F) :
    (writtenTo .mantissa (shape.encodeAccesses arguments)).Perm
      (if shape.blockColumns then shape.elementPass ++ shape.elementPass
        else shape.elementPass) := by
  rw [encodeAccesses_unified, writtenTo_nest]
  cases orientation : shape.blockColumns with
  | false =>
      refine List.Perm.of_eq (nest_congr fun lane _ block _ => ?_)
      simp [encodeBlockAccesses, orientation, writtenTo_loop, writtenTo_precisionAccesses,
        writtenTo_roundAccesses, loop_map, loop_nothing]
  | true =>
      refine List.Perm.trans (List.Perm.of_eq (nest_congr fun lane _ block _ => ?_))
        (nest_append shape.lanes shape.numBlocks _ _)
      have rounded : (List.range (shape.count block)).map (shape.element lane block 0 + ·) =
          (List.range (shape.count block)).map (shape.element lane block) :=
        List.map_congr_left fun i _ => element_from_base orientation lane block i
      simp [encodeBlockAccesses, orientation, writtenTo_loop, writtenTo_precisionAccesses,
        writtenTo_roundAccesses, loop_map, loop_nothing, rounded]

theorem writtenTo_decodeAccesses (product : Bool) :
    writtenTo .floats (shape.decodeAccesses product) = shape.elementPass := by
  rw [decodeAccesses_unified, writtenTo_nest]
  refine nest_congr fun lane _ block _ => ?_
  simp only [writtenTo_append, writtenTo_loop]
  cases product <;> simp [loop_map]

end BlockShape

-- What the methods are to do with a shape: nothing outside the arrays, the blocks a partition of
-- the elements, and every entry that a method fills written as often as passes says.
structure Covered {F : Type} (shape : BlockShape) (passes : BlockMethod F → BlockArray → Nat)
    (entries : Entries) : Prop where
  elements : entries.elements = shape.rows * shape.cols
  inside : ∀ (method : BlockMethod F), ∀ access ∈ method.accesses shape, access.Inside entries
  partition : ∀ e < shape.rows * shape.cols, ∃! block : Nat × Nat,
    block.1 < shape.lanes ∧ block.2 < shape.numBlocks ∧
      ∃ offset < shape.count block.2, shape.element block.1 block.2 offset = e
  written : ∀ (method : BlockMethod F), ∀ array ∈ method.fills, ∀ index < entries.length array,
    (writtenTo array (method.accesses shape)).count index = passes method array

-- floats_to_mantissa rounds a row into the mantissa and centres it there, a column on its way.
def BlockMethod.passes {F : Type} (shape : BlockShape) : BlockMethod F → BlockArray → Nat
  | .floatsToMantissa _, .mantissa => if shape.blockColumns then 2 else 1
  | _, _ => 1

namespace BlockShape

variable {shape : BlockShape} {F : Type}

theorem accesses_inside (positive : 0 < shape.blockSize) (method : BlockMethod F) :
    ∀ access ∈ method.accesses shape, access.Inside shape.entries := by
  cases method with
  | fitExponent => exact fitAccesses_inside positive
  | floatsToMantissa arguments => exact encodeAccesses_inside positive arguments
  | mantissaToFloats => exact decodeAccesses_inside positive false
  | mantissaToFloatsProduct => exact decodeAccesses_inside positive true

theorem block_unique (positive : 0 < shape.blockSize) :
    ∀ e < shape.rows * shape.cols, ∃! block : Nat × Nat,
      block.1 < shape.lanes ∧ block.2 < shape.numBlocks ∧
        ∃ offset < shape.count block.2, shape.element block.1 block.2 offset = e := by
  intro e below
  obtain ⟨lane, row, block, column, offset, within, rfl⟩ :=
    (elements_enumerated positive).covers e below
  refine ⟨(lane, block), ⟨row, column, offset, within, rfl⟩, ?_⟩
  rintro ⟨lane', block'⟩ ⟨row', _, offset', within', same⟩
  obtain ⟨lanes, blocks, _⟩ := element_injective row' row within' within same
  exact Prod.ext lanes blocks

theorem count_of_perm {entries : List Nat} {n index : Nat} (perm : entries.Perm (List.range n))
    (below : index < n) : entries.count index = 1 := by
  rw [perm.count_eq]
  exact List.count_eq_one_of_mem List.nodup_range (List.mem_range.mpr below)

theorem fitAccesses_written {array : BlockArray} {index : Nat}
    (filled : array = .exponents ∨ array = .means ∨ array = .stdDevs)
    (below : index < shape.entries.blocks) :
    (writtenTo array shape.fitAccesses).count index = 1 := by
  rw [writtenTo_fitAccesses array filled]
  exact count_of_perm blockPass_perm below

theorem written_passes (positive : 0 < shape.blockSize) (method : BlockMethod F) :
    ∀ array ∈ method.fills, ∀ index < shape.entries.length array,
      (writtenTo array (method.accesses shape)).count index = method.passes shape array := by
  have once : ∀ index < shape.entries.elements, shape.elementPass.count index = 1 :=
    fun index below => count_of_perm (elementPass_perm positive) below
  cases method with
  | fitExponent =>
      intro array filled index below
      simp only [BlockMethod.fills, List.mem_cons, List.not_mem_nil, or_false] at filled
      obtain rfl | rfl | rfl := filled <;> exact fitAccesses_written (by simp) below
  | floatsToMantissa arguments =>
      intro array filled index below
      simp only [BlockMethod.fills, List.mem_cons, List.not_mem_nil, or_false] at filled
      obtain rfl | rfl := filled
      · rw [BlockMethod.accesses, writtenTo_encodeAccesses_precisions]
        exact count_of_perm blockPass_perm below
      · rw [BlockMethod.accesses, (writtenTo_encodeAccesses_mantissa arguments).count_eq]
        unfold BlockMethod.passes
        cases shape.blockColumns with
        | false => exact once index below
        | true =>
            rw [if_pos rfl, if_pos rfl, List.count_append, once index below]
  | mantissaToFloats =>
      intro array filled index below
      obtain rfl := List.mem_singleton.mp filled
      rw [BlockMethod.accesses, writtenTo_decodeAccesses]
      exact once index below
  | mantissaToFloatsProduct =>
      intro array filled index below
      obtain rfl := List.mem_singleton.mp filled
      rw [BlockMethod.accesses, writtenTo_decodeAccesses]
      exact once index below

theorem covered (positive : 0 < shape.blockSize) :
    Covered shape (BlockMethod.passes (F := F) shape) shape.entries where
  elements := rfl
  inside := accesses_inside positive
  partition := block_unique positive
  written := written_passes positive

theorem start_add_blockSize_lt (sum : shape.laneLength + shape.blockSize < 2 ^ 31) {block : Nat}
    (below : block < shape.numBlocks) : shape.start block + shape.blockSize < 2 ^ 31 := by
  have blocks : shape.numBlocks * shape.blockSize ≤ shape.laneLength + shape.blockSize - 1 :=
    Nat.div_mul_le_self _ _
  have last : (block + 1) * shape.blockSize ≤ shape.numBlocks * shape.blockSize :=
    Nat.mul_le_mul_right _ below
  rw [Nat.succ_mul] at last
  unfold start
  omega

end BlockShape

def AccessesCovered {F : Type} (shape : BlockShape)
    (passes : BlockMethod F → BlockArray → Nat) : Prop :=
  ∃ entries, shape.construct = some entries ∧ Covered shape passes entries

-- A row is written when it is rounded and when it is centred. Beyond the ints nothing is
-- constructed.
theorem rows_written_twice :
    ¬ AccessesCovered (F := Unit) ⟨1, 1, 1, true⟩ (fun _ _ => 1) ∧
      ¬ AccessesCovered (F := Unit) ⟨65536, 65536, 1, true⟩ (fun _ _ => 1) ∧
      ¬ AccessesCovered (F := Unit) ⟨1, 1, 2147483647, true⟩ (fun _ _ => 1) := by
  refine ⟨?_, ?_, ?_⟩
  · rintro ⟨entries, constructed, covered⟩
    obtain rfl : (⟨1, 1⟩ : Entries) = entries := Option.some.inj constructed
    let arguments : EncodeArguments Unit :=
      { floatsArray := fun _ => ()
        fixedExponent := 0
        forcePrecision := 0
        other := { zSigma := (), otherExponent := 8, otherStdDev := () } }
    have once := covered.written (.floatsToMantissa arguments) .mantissa (by decide) 0 Nat.one_pos
    have twice : (writtenTo .mantissa
        ((BlockMethod.floatsToMantissa arguments).accesses ⟨1, 1, 1, true⟩)).count 0 = 2 := by
      decide
    omega
  · rintro ⟨entries, constructed, _⟩
    have undefined : BlockShape.construct ⟨65536, 65536, 1, true⟩ = none := by decide
    rw [undefined] at constructed
    cases constructed
  · rintro ⟨entries, constructed, _⟩
    have undefined : BlockShape.construct ⟨1, 1, 2147483647, true⟩ = none := by decide
    rw [undefined] at constructed
    cases constructed

-- Where the product and the sum of the constructor are ints, every access of the four methods is
-- inside the arrays it asked for, the blocks are a partition of the matrix, and every entry is
-- written once, but for the mantissa of a block of columns, which is written and then centred.
theorem block_accesses_covered (F : Type) (shape : BlockShape) (blockSize : 1 ≤ shape.blockSize)
    (product : shape.rows * shape.cols < 2 ^ 31)
    (sum : shape.laneLength + shape.blockSize < 2 ^ 31) :
    AccessesCovered shape (BlockMethod.passes (F := F) shape) ∧
      ∀ block < shape.numBlocks, shape.start block + shape.blockSize < 2 ^ 31 := by
  constructor
  · exact ⟨shape.entries, BlockShape.construct_eq blockSize product sum,
      BlockShape.covered blockSize⟩
  · intro block below
    exact BlockShape.start_add_blockSize_lt sum below

-- Three rows of five elements in blocks of two, the last one of one element.
theorem partial_blocks_covered :
    AccessesCovered ⟨3, 5, 2, true⟩ (BlockMethod.passes (F := Unit) ⟨3, 5, 2, true⟩) ∧
      ∀ block < 3, BlockShape.start ⟨3, 5, 2, true⟩ block + 2 < 2 ^ 31 :=
  block_accesses_covered Unit ⟨3, 5, 2, true⟩ (by decide) (by decide) (by decide)

end NpuMatmul
