import NpuMatmul.FixedPoint.WriteCounts

set_option autoImplicit false

namespace NpuMatmul

open LoopNest Loop

-- What the accesses of a method say of it: an entry that they do not write is left as it was, and
-- what they do not read it does not depend on.
section Footprint

variable {F : Type} (fp : FloatArith F) {width : Nat} (block : FixedPointBlock width F)

structure KeptOutside (accesses : List Access) (before after : BlockArrays width F) : Prop where
  mantissa : ∀ i ∉ writtenTo .mantissa accesses, after.mantissa i = before.mantissa i
  exponents : ∀ i ∉ writtenTo .exponents accesses, after.exponents i = before.exponents i
  means : ∀ i ∉ writtenTo .means accesses, after.means i = before.means i
  stdDevs : ∀ i ∉ writtenTo .stdDevs accesses, after.stdDevs i = before.stdDevs i
  precisions : ∀ i ∉ writtenTo .precisions accesses, after.precisions i = before.precisions i

structure ReadAlike (accesses : List Access) (first second : BlockArrays width F) : Prop where
  exponents : ∀ i, .reads .exponents i ∈ accesses → first.exponents i = second.exponents i
  means : ∀ i, .reads .means i ∈ accesses → first.means i = second.means i
  stdDevs : ∀ i, .reads .stdDevs i ∈ accesses → first.stdDevs i = second.stdDevs i
  precisions : ∀ i, .reads .precisions i ∈ accesses → first.precisions i = second.precisions i

section Passes

variable {shape : BlockShape} {lane index offset : Nat}

theorem mem_blockPass (below : lane < shape.lanes) (inside : index < shape.numBlocks) :
    shape.blockFlatIdx lane index ∈ shape.blockPass :=
  mem_nest.mpr ⟨lane, below, index, inside, List.mem_singleton_self _⟩

theorem mem_elementPass (below : lane < shape.lanes) (inside : index < shape.numBlocks)
    (within : offset < shape.count index) :
    shape.element lane index offset ∈ shape.elementPass :=
  mem_nest.mpr ⟨lane, below, index, inside, List.mem_map.mpr
    ⟨offset, List.mem_range.mpr within, rfl⟩⟩

theorem update_outside {α : Type} {places : List Nat} {place i : Nat} (passed : place ∈ places)
    (other : i ∉ places) (values : Nat → α) (value : α) :
    Function.update values place value i = values i := by
  have apart : i ≠ place := by
    rintro rfl
    exact other passed
  exact Function.update_of_ne apart value values

theorem store_outside {α : Type} {places : List Nat} {count i : Nat} {place : Nat → Nat}
    (passed : ∀ offset < count, place offset ∈ places) (other : i ∉ places) (values : Nat → α)
    (stored : Nat → α) : store count place stored values i = values i := by
  apply store_other
  intro offset within same
  rw [← same] at other
  exact other (passed offset within)

end Passes

section Fit

theorem fitExponent_keptOutside (values : Nat → F) :
    KeptOutside block.fitAccesses block.toBlockArrays
      (Branches.fitExponent fp block values).toBlockArrays := by
  rw [Branches.fitExponent_unified]
  apply grid_keeps (P := fun arrays => KeptOutside block.fitAccesses block.toBlockArrays arrays)
  · constructor <;> intros <;> rfl
  · intro lane index arrays below inside kept
    have passed := mem_blockPass below inside
    have exponents := block.writtenTo_fitAccesses .exponents (by simp)
    have means := block.writtenTo_fitAccesses .means (by simp)
    have stdDevs := block.writtenTo_fitAccesses .stdDevs (by simp)
    constructor
    · exact kept.mantissa
    · intro i other
      rw [← kept.exponents i other]
      exact update_outside passed (exponents ▸ other) _ _
    · intro i other
      rw [← kept.means i other]
      exact update_outside passed (means ▸ other) _ _
    · intro i other
      rw [← kept.stdDevs i other]
      exact update_outside passed (stdDevs ▸ other) _ _
    · exact kept.precisions

theorem fitExponent_readAlike {values other : Nat → F}
    (same : ∀ i, .reads .floats i ∈ block.fitAccesses → values i = other i) :
    Branches.fitExponent fp block values = Branches.fitExponent fp block other := by
  rw [Branches.fitExponent_unified, Branches.fitExponent_unified]
  have stats : ∀ lane < block.lanes, ∀ index < block.numBlocks,
      blockStats fp block.toBlockShape values lane index =
        blockStats fp block.toBlockShape other lane index := by
    intro lane below index inside
    apply forLoop_congr
    intro offset stats within
    rw [same]
    rw [BlockShape.fitAccesses_unified]
    refine mem_nest.mpr ⟨lane, below, index, inside, List.mem_append_left _ ?_⟩
    exact mem_loop.mpr ⟨offset, within, List.mem_singleton_self _⟩
  have passes : grid block.lanes block.numBlocks (fitBlock fp block.toBlockShape values)
      block.toBlockArrays =
      grid block.lanes block.numBlocks (fitBlock fp block.toBlockShape other)
        block.toBlockArrays := by
    apply grid_congr
    intro lane index arrays below inside
    simp only [fitBlock, stats lane below index inside]
  exact congrArg (fun arrays => { block with toBlockArrays := arrays }) passes

end Fit

section Encode

theorem floatsToMantissa_keptOutside (arguments : EncodeArguments F) (fresh : Nat → BitVec width) :
    KeptOutside (block.encodeAccesses arguments) block.toBlockArrays
      (Branches.floatsToMantissa fp block arguments fresh).toBlockArrays := by
  have elements : ∀ i ∈ block.elementPass,
      i ∈ writtenTo .mantissa (block.encodeAccesses arguments) := by
    intro i passed
    rw [(block.writtenTo_encodeAccesses_mantissa arguments).mem_iff]
    split
    next => exact List.mem_append_left _ passed
    next => exact passed
  have blocks := block.writtenTo_encodeAccesses_precisions arguments
  rw [Branches.floatsToMantissa_unified]
  apply grid_keeps
    (P := fun arrays => KeptOutside (block.encodeAccesses arguments) block.toBlockArrays arrays)
  · constructor <;> intros <;> rfl
  · intro lane index arrays below inside kept
    have passed := mem_blockPass below inside
    constructor
    · intro i other
      rw [← kept.mantissa i other]
      exact store_outside
        (fun offset within => elements _ (mem_elementPass below inside within)) other _ _
    · exact kept.exponents
    · exact kept.means
    · exact kept.stdDevs
    · intro i other
      rw [← kept.precisions i other]
      exact update_outside passed (blocks ▸ other) _ _

section Reads

variable {block} {arguments : EncodeArguments F} {lane index : Nat}

theorem mem_encodeAccesses (below : lane < block.lanes) (inside : index < block.numBlocks)
    {access : Access} (member : access ∈ block.encodeBlockAccesses arguments lane index) :
    access ∈ block.encodeAccesses arguments := by
  rw [BlockShape.encodeAccesses_unified]
  exact mem_nest.mpr ⟨lane, below, index, inside, member⟩

variable {memory : BlockArrays width F}

theorem encodeExponent_readAlike
    (alike : ReadAlike (block.encodeAccesses arguments) block.toBlockArrays memory)
    (below : lane < block.lanes) (inside : index < block.numBlocks) :
    encodeExponent arguments (block.exponents (block.blockFlatIdx lane index)) =
      encodeExponent arguments (memory.exponents (block.blockFlatIdx lane index)) := by
  unfold encodeExponent
  by_cases replaced : arguments.fixedExponent ≠ 0
  · rw [if_pos replaced, if_pos replaced]
  · rw [if_neg replaced, if_neg replaced]
    apply alike.exponents
    apply mem_encodeAccesses below inside
    simp [BlockShape.encodeBlockAccesses, BlockShape.precisionAccesses, replaced]

theorem encodePrecision_readAlike
    (alike : ReadAlike (block.encodeAccesses arguments) block.toBlockArrays memory)
    (below : lane < block.lanes) (inside : index < block.numBlocks) (exponentVal : Int)
    (count : Nat) :
    encodePrecision fp arguments width (block.stdDevs (block.blockFlatIdx lane index)) exponentVal
        count =
      encodePrecision fp arguments width (memory.stdDevs (block.blockFlatIdx lane index))
        exponentVal count := by
  unfold encodePrecision
  by_cases forced : 0 < arguments.forcePrecision
  · rw [if_pos forced, if_pos forced]
  · rw [if_neg forced, if_neg forced, alike.stdDevs]
    apply mem_encodeAccesses below inside
    simp [BlockShape.encodeBlockAccesses, BlockShape.precisionAccesses, forced]

theorem encodedMantissa_readAlike {floats : Nat → F}
    (alike : ReadAlike (block.encodeAccesses arguments) block.toBlockArrays memory)
    (same : ∀ i, .reads .floats i ∈ block.encodeAccesses arguments →
      arguments.floatsArray i = floats i)
    (below : lane < block.lanes) (inside : index < block.numBlocks) {offset : Nat}
    (within : offset < block.count index) :
    encodedMantissa fp block arguments lane index offset =
      encodedMantissa fp { block with toBlockArrays := memory }
        { arguments with floatsArray := floats } lane index offset := by
  have exponents := encodeExponent_readAlike alike below inside
  have precisions := encodePrecision_readAlike fp alike below inside
  have means : block.means (block.blockFlatIdx lane index) =
      memory.means (block.blockFlatIdx lane index) := by
    apply alike.means
    apply mem_encodeAccesses below inside
    simp [BlockShape.encodeBlockAccesses]
  have element : arguments.floatsArray (block.element lane index offset) =
      floats (block.element lane index offset) := by
    apply same
    apply mem_encodeAccesses below inside
    have read : Access.reads .floats (block.element lane index offset) ∈
        loop (block.count index) fun i => [Access.reads .floats (block.element lane index i),
          .writes (.temporaryBuffer block.laneLength) i] :=
      mem_loop.mpr ⟨offset, within, List.mem_cons_self⟩
    simp only [BlockShape.encodeBlockAccesses, List.mem_append, read, true_or, or_true]
  unfold encodedMantissa roundElement scaledElement
  simp only [exponents, precisions, means, element]
  rfl

end Reads

theorem floatsToMantissa_readAlike (arguments : EncodeArguments F) (fresh : Nat → BitVec width)
    {memory : BlockArrays width F} {floats : Nat → F}
    (alike : ReadAlike (block.encodeAccesses arguments) block.toBlockArrays memory)
    (same : ∀ i, .reads .floats i ∈ block.encodeAccesses arguments →
      arguments.floatsArray i = floats i) :
    ∀ lane < block.lanes, ∀ index < block.numBlocks,
      (Branches.floatsToMantissa fp block arguments fresh).precisions
          (block.blockFlatIdx lane index) =
        (Branches.floatsToMantissa fp { block with toBlockArrays := memory }
          { arguments with floatsArray := floats } fresh).precisions
            (block.blockFlatIdx lane index) ∧
      ∀ offset < block.count index,
        (Branches.floatsToMantissa fp block arguments fresh).mantissa
            (block.element lane index offset) =
          (Branches.floatsToMantissa fp { block with toBlockArrays := memory }
            { arguments with floatsArray := floats } fresh).mantissa
              (block.element lane index offset) := by
  intro lane below index inside
  rw [Branches.floatsToMantissa_unified, Branches.floatsToMantissa_unified]
  obtain ⟨precision, mantissa⟩ :=
    floatsToMantissa_correct fp block arguments lane below index inside
  obtain ⟨precision', mantissa'⟩ := floatsToMantissa_correct fp
    { block with toBlockArrays := memory } { arguments with floatsArray := floats } lane below index
    inside
  constructor
  · rw [precision, encodePrecision_readAlike fp alike below inside,
      encodeExponent_readAlike alike below inside]
    exact precision'.symm
  · intro offset within
    rw [mantissa offset within, encodedMantissa_readAlike fp alike same below inside within]
    exact (mantissa' offset within).symm

end Encode

section Decode

theorem decode_keptOutside (product : Bool) (value : Nat → Nat → F) (outputArray : Nat → F) :
    ∀ i ∉ writtenTo .floats (block.decodeAccesses product),
      Branches.decode block value outputArray i = outputArray i := by
  intro i other
  rw [block.writtenTo_decodeAccesses product] at other
  rw [Branches.decode_unified]
  apply grid_keeps (P := fun output : Nat → F => output i = outputArray i)
  · rfl
  · intro lane index output below inside kept
    rw [← kept]
    exact store_outside (fun offset within => mem_elementPass below inside within) other _ _

theorem mantissaToFloats_keptOutside (outputArray : Nat → F) (otherExponent : Int) :
    (∀ i ∉ writtenTo .floats (block.decodeAccesses false),
        Branches.mantissaToFloats fp block outputArray i = outputArray i) ∧
      ∀ i ∉ writtenTo .floats (block.decodeAccesses true),
        Branches.mantissaToFloatsProduct fp block outputArray otherExponent i = outputArray i :=
  ⟨decode_keptOutside block false _ outputArray, decode_keptOutside block true _ outputArray⟩

section Reads

variable {block} {memory : BlockArrays width F} {lane index : Nat}

theorem mem_decodeAccesses (product : Bool) (below : lane < block.lanes)
    (inside : index < block.numBlocks) :
    .reads .exponents (block.blockFlatIdx lane index) ∈ block.decodeAccesses product ∧
      .reads .precisions (block.blockFlatIdx lane index) ∈ block.decodeAccesses product := by
  rw [BlockShape.decodeAccesses_unified]
  constructor <;> exact mem_nest.mpr ⟨lane, below, index, inside, by simp⟩

theorem mem_decodeAccesses_element (product : Bool) (below : lane < block.lanes)
    (inside : index < block.numBlocks) {offset : Nat} (within : offset < block.count index) :
    .reads .mantissa (block.element lane index offset) ∈ block.decodeAccesses product ∧
      .reads .means (block.blockFlatIdx lane index) ∈ block.decodeAccesses product := by
  rw [BlockShape.decodeAccesses_unified]
  constructor
  · refine mem_nest.mpr ⟨lane, below, index, inside, List.mem_append_right _ ?_⟩
    exact mem_loop.mpr ⟨offset, within, by simp⟩
  · refine mem_nest.mpr ⟨lane, below, index, inside, List.mem_append.mpr ?_⟩
    cases product with
    | false => exact .inr (mem_loop.mpr ⟨offset, within, by simp⟩)
    | true => exact .inl (by simp)

theorem decode_readAlike (product : Bool) (decoded : Int → Nat → F → BitVec width → F)
    (alike : ReadAlike (block.decodeAccesses product) block.toBlockArrays memory)
    (codes : ∀ i, .reads .mantissa i ∈ block.decodeAccesses product →
      block.mantissa i = memory.mantissa i) (outputArray : Nat → F) :
    Branches.decode block (fun blockFlatIdx i => decoded (block.exponents blockFlatIdx)
        (block.precisions blockFlatIdx) (block.means blockFlatIdx) (block.mantissa i))
        outputArray =
      Branches.decode { block with toBlockArrays := memory }
        (fun blockFlatIdx i => decoded (memory.exponents blockFlatIdx)
          (memory.precisions blockFlatIdx) (memory.means blockFlatIdx) (memory.mantissa i))
        outputArray := by
  rw [Branches.decode_unified, Branches.decode_unified]
  apply grid_congr
  intro lane index output below inside
  apply store_congr
  · intro offset _
    rfl
  · intro offset within
    obtain ⟨exponent, precision⟩ := mem_decodeAccesses product below inside
    obtain ⟨code, mean⟩ := mem_decodeAccesses_element product below inside within
    rw [codes _ code, alike.exponents _ exponent, alike.precisions _ precision,
      alike.means _ mean]

theorem mantissaToFloats_readAlike
    (alike : ReadAlike (block.decodeAccesses false) block.toBlockArrays memory)
    (codes : ∀ i, .reads .mantissa i ∈ block.decodeAccesses false →
      block.mantissa i = memory.mantissa i) (outputArray : Nat → F) :
    Branches.mantissaToFloats fp block outputArray =
      Branches.mantissaToFloats fp { block with toBlockArrays := memory } outputArray :=
  decode_readAlike false
    (fun exponent precision mean code =>
      fp.add (fp.mul (fp.ofInt code.toInt) (fastPow2 fp (exponent - precision))) mean)
    alike codes outputArray

theorem mantissaToFloatsProduct_readAlike
    (alike : ReadAlike (block.decodeAccesses true) block.toBlockArrays memory)
    (codes : ∀ i, .reads .mantissa i ∈ block.decodeAccesses true →
      block.mantissa i = memory.mantissa i) (outputArray : Nat → F) (otherExponent : Int) :
    Branches.mantissaToFloatsProduct fp block outputArray otherExponent =
      Branches.mantissaToFloatsProduct fp { block with toBlockArrays := memory } outputArray
        otherExponent :=
  decode_readAlike true
    (fun exponent precision mean code =>
      fp.add (fp.mul (fp.ofInt code.toInt) (fastPow2 fp (exponent - precision - otherExponent)))
        (fp.mul mean (fastPow2 fp (-otherExponent))))
    alike codes outputArray

end Reads

end Decode

end Footprint

end NpuMatmul
