import NpuMatmul.FixedPoint.Branches
import NpuMatmul.FixedPoint.Encoding

set_option autoImplicit false

namespace NpuMatmul

open Loop

def columnwise (rows cols blockSize : Nat) : BlockShape :=
  { rows := rows, cols := cols, blockSize := blockSize, blockColumns := false }

def rowwise (rows cols blockSize : Nat) : BlockShape :=
  { rows := cols, cols := rows, blockSize := blockSize, blockColumns := true }

section Mirrored

variable {F : Type} {width : Nat}

-- The numbers of block b of column c on one side are those of block b of row c on the other.
structure MirroredStats (rows cols blockSize : Nat) (block other : BlockArrays width F) : Prop where
  exponents : ∀ c < cols, ∀ b < (rows + blockSize - 1) / blockSize,
    block.exponents (b * cols + c) = other.exponents (c * ((rows + blockSize - 1) / blockSize) + b)
  means : ∀ c < cols, ∀ b < (rows + blockSize - 1) / blockSize,
    block.means (b * cols + c) = other.means (c * ((rows + blockSize - 1) / blockSize) + b)
  stdDevs : ∀ c < cols, ∀ b < (rows + blockSize - 1) / blockSize,
    block.stdDevs (b * cols + c) = other.stdDevs (c * ((rows + blockSize - 1) / blockSize) + b)

structure Mirrored (rows cols blockSize : Nat) (block other : BlockArrays width F) : Prop
    extends MirroredStats rows cols blockSize block other where
  precisions : ∀ c < cols, ∀ b < (rows + blockSize - 1) / blockSize,
    block.precisions (b * cols + c) =
      other.precisions (c * ((rows + blockSize - 1) / blockSize) + b)
  mantissa : ∀ r < rows, ∀ c < cols, block.mantissa (r * cols + c) = other.mantissa (c * rows + r)

def TransposeOf (rows cols : Nat) (transpose values : Nat → F) : Prop :=
  ∀ r < rows, ∀ c < cols, transpose (c * rows + r) = values (r * cols + c)

theorem column_position {rows cols blockSize : Nat} (positive : 0 < blockSize) {r : Nat}
    (below : r < rows) :
    ∃ b offset, b < (rows + blockSize - 1) / blockSize ∧
      offset < (columnwise rows cols blockSize).count b ∧
      offset < (rowwise rows cols blockSize).count b ∧
      ∀ c, (columnwise rows cols blockSize).element c b offset = r * cols + c ∧
        (rowwise rows cols blockSize).element c b offset = c * rows + r := by
  obtain ⟨b, offset, inside, within, position⟩ :=
    @BlockShape.element_covers (columnwise rows cols blockSize) positive r below
  refine ⟨b, offset, inside, within, within, fun c => ?_⟩
  have same : b * blockSize + offset = r := position
  constructor
  · change (b * blockSize + offset) * cols + c = _
    rw [same]
  · change c * rows + (b * blockSize + offset) = _
    rw [same]

variable (fp : FloatArith F) {rows cols blockSize : Nat} {values transpose : Nat → F}

theorem element_mirrored (mirrored : TransposeOf rows cols transpose values) {c b offset : Nat}
    (below : c < cols) (within : offset < (columnwise rows cols blockSize).count b) :
    values ((columnwise rows cols blockSize).element c b offset) =
      transpose ((rowwise rows cols blockSize).element c b offset) :=
  (mirrored _ (BlockShape.offset_inside within) c below).symm

variable (blockSize) in
theorem blockStats_mirrored (mirrored : TransposeOf rows cols transpose values) {c : Nat} (b : Nat)
    (below : c < cols) :
    blockStats fp (columnwise rows cols blockSize) values c b =
      blockStats fp (rowwise rows cols blockSize) transpose c b := by
  apply forLoop_congr
  intro offset stats within
  rw [element_mirrored mirrored below within]

theorem fitExponent_mirrored (memory memory' : BlockArrays width F)
    (mirrored : TransposeOf rows cols transpose values) :
    MirroredStats rows cols blockSize
      ((FixedPointBlock.create memory rows cols blockSize false).fitExponent fp
        values).toBlockArrays
      ((FixedPointBlock.create memory' cols rows blockSize true).fitExponent fp
        transpose).toBlockArrays := by
  have left := fitExponent_correct fp (FixedPointBlock.create memory rows cols blockSize false)
    values
  have right := fitExponent_correct fp (FixedPointBlock.create memory' cols rows blockSize true)
    transpose
  constructor
  · intro c below b inside
    have stats := blockStats_mirrored fp blockSize mirrored b below
    exact (left c below b inside).1.trans
      ((congrArg BlockStats.exponent stats).trans (right c below b inside).1.symm)
  · intro c below b inside
    have stats := blockStats_mirrored fp blockSize mirrored b below
    exact (left c below b inside).2.1.trans
      ((congrArg (BlockStats.mean fp) stats).trans (right c below b inside).2.1.symm)
  · intro c below b inside
    have stats := blockStats_mirrored fp blockSize mirrored b below
    exact (left c below b inside).2.2.trans
      ((congrArg (BlockStats.stdDev fp) stats).trans (right c below b inside).2.2.symm)

variable {arrays arrays' : BlockArrays width F}

def columnBlock (rows cols blockSize : Nat) (arrays : BlockArrays width F) :
    FixedPointBlock width F :=
  { toBlockShape := columnwise rows cols blockSize, toBlockArrays := arrays }

def rowBlock (rows cols blockSize : Nat) (arrays : BlockArrays width F) :
    FixedPointBlock width F :=
  { toBlockShape := rowwise rows cols blockSize, toBlockArrays := arrays }

def elementMantissa (width : Nat) (arguments : EncodeArguments F) (count : Nat) (exponent : Int)
    (mean stdDev x : F) (offset : Nat) : BitVec width :=
  let exponentVal := encodeExponent arguments exponent
  let bitsOfPrecision := encodePrecision fp arguments width stdDev exponentVal count
  roundElement fp (fun _ => fp.mul x (fastPow2 fp (-exponentVal))) bitsOfPrecision offset
      (elementNoise count offset) -
    integerMean fp width mean exponentVal bitsOfPrecision

theorem encodedMantissa_element (block : FixedPointBlock width F) (arguments : EncodeArguments F)
    (values : Nat → F) (lane index offset : Nat) :
    encodedMantissa fp block { arguments with floatsArray := values } lane index offset =
      elementMantissa fp width arguments (block.count index)
        (block.exponents (block.blockFlatIdx lane index))
        (block.means (block.blockFlatIdx lane index))
        (block.stdDevs (block.blockFlatIdx lane index)) (values (block.element lane index offset))
        offset :=
  rfl

theorem floatsToMantissa_mirrored (arguments : EncodeArguments F)
    (mirrored : TransposeOf rows cols transpose values) (positive : 0 < blockSize)
    (stats : MirroredStats rows cols blockSize arrays arrays') :
    Mirrored rows cols blockSize
      ((columnBlock rows cols blockSize arrays).floatsToMantissa fp
        { arguments with floatsArray := values }).toBlockArrays
      ((rowBlock rows cols blockSize arrays').floatsToMantissa fp
        { arguments with floatsArray := transpose }).toBlockArrays := by
  have left := floatsToMantissa_correct fp (columnBlock rows cols blockSize arrays)
    { arguments with floatsArray := values }
  have right := floatsToMantissa_correct fp (rowBlock rows cols blockSize arrays')
    { arguments with floatsArray := transpose }
  have kept := floatsToMantissa_kept fp (columnBlock rows cols blockSize arrays)
    { arguments with floatsArray := values }
  have kept' := floatsToMantissa_kept fp (rowBlock rows cols blockSize arrays')
    { arguments with floatsArray := transpose }
  have exponents := stats.exponents
  have means := stats.means
  have stdDevs := stats.stdDevs
  constructor
  · constructor
    · rw [kept.exponents, kept'.exponents]
      exact exponents
    · rw [kept.means, kept'.means]
      exact means
    · rw [kept.stdDevs, kept'.stdDevs]
      exact stdDevs
  · intro c below b inside
    have first := (left c below b inside).1
    have second := (right c below b inside).1
    have bits : ∀ count, encodePrecision fp arguments width (arrays.stdDevs (b * cols + c))
          (encodeExponent arguments (arrays.exponents (b * cols + c))) count =
        encodePrecision fp arguments width
          (arrays'.stdDevs (c * ((rows + blockSize - 1) / blockSize) + b))
          (encodeExponent arguments
            (arrays'.exponents (c * ((rows + blockSize - 1) / blockSize) + b))) count := by
      intro count
      rw [exponents c below b inside, stdDevs c below b inside]
    exact first.trans ((bits _).trans second.symm)
  · intro r row c below
    obtain ⟨b, offset, inside, within, within', places⟩ := column_position positive row
    obtain ⟨place, place'⟩ := places c
    have first := (left c below b inside).2 offset within
    have second := (right c below b inside).2 offset within'
    have same : ∀ count x, elementMantissa fp width arguments count
          (arrays.exponents (b * cols + c)) (arrays.means (b * cols + c))
          (arrays.stdDevs (b * cols + c)) x offset =
        elementMantissa fp width arguments count
          (arrays'.exponents (c * ((rows + blockSize - 1) / blockSize) + b))
          (arrays'.means (c * ((rows + blockSize - 1) / blockSize) + b))
          (arrays'.stdDevs (c * ((rows + blockSize - 1) / blockSize) + b)) x offset := by
      intro count x
      rw [exponents c below b inside, means c below b inside, stdDevs c below b inside]
    have element := element_mirrored mirrored below within
    rw [encodedMantissa_element] at first second
    rw [← place, ← place']
    refine first.trans (Eq.trans ?_ second.symm)
    refine Eq.trans ?_ (same _ _)
    exact congrArg (fun x => elementMantissa fp width arguments _ _ _ _ x offset) element

def decodedWith (block : FixedPointBlock width F) (value : BitVec width → Int → Nat → F → F)
    (outputArray : Nat → F) : Nat → F :=
  grid block.lanes block.numBlocks
    (fun lane index => store (block.count index) (block.element lane index) fun offset =>
      value (block.mantissa (block.element lane index offset))
        (block.exponents (block.blockFlatIdx lane index))
        (block.precisions (block.blockFlatIdx lane index))
        (block.means (block.blockFlatIdx lane index)))
    outputArray

theorem decodedWith_mirrored (positive : 0 < blockSize)
    (mirrored : Mirrored rows cols blockSize arrays arrays')
    (value : BitVec width → Int → Nat → F → F) (outputArray outputArray' : Nat → F) {r c : Nat}
    (row : r < rows) (below : c < cols) :
    decodedWith (columnBlock rows cols blockSize arrays) value outputArray (r * cols + c) =
      decodedWith (rowBlock rows cols blockSize arrays') value outputArray' (c * rows + r) := by
  obtain ⟨b, offset, inside, within, within', places⟩ := column_position positive row
  obtain ⟨place, place'⟩ := places c
  let shape := columnwise rows cols blockSize
  let shape' := rowwise rows cols blockSize
  have left := grid_elements shape (fun lane index offset =>
    value (arrays.mantissa (shape.element lane index offset))
      (arrays.exponents (shape.blockFlatIdx lane index))
      (arrays.precisions (shape.blockFlatIdx lane index))
      (arrays.means (shape.blockFlatIdx lane index))) outputArray c below b inside offset within
  have right := grid_elements shape' (fun lane index offset =>
    value (arrays'.mantissa (shape'.element lane index offset))
      (arrays'.exponents (shape'.blockFlatIdx lane index))
      (arrays'.precisions (shape'.blockFlatIdx lane index))
      (arrays'.means (shape'.blockFlatIdx lane index))) outputArray' c below b inside offset within'
  have mantissa : arrays.mantissa (shape.element c b offset) =
      arrays'.mantissa (shape'.element c b offset) := by
    rw [place, place']
    exact mirrored.mantissa r row c below
  have exponent : arrays.exponents (shape.blockFlatIdx c b) =
      arrays'.exponents (shape'.blockFlatIdx c b) := mirrored.exponents c below b inside
  have precision : arrays.precisions (shape.blockFlatIdx c b) =
      arrays'.precisions (shape'.blockFlatIdx c b) := mirrored.precisions c below b inside
  have mean : arrays.means (shape.blockFlatIdx c b) = arrays'.means (shape'.blockFlatIdx c b) :=
    mirrored.means c below b inside
  rw [mantissa, exponent, precision, mean] at left
  rw [← place, ← place']
  exact left.trans right.symm

end Mirrored

section Orientation

variable {F : Type} (fp : FloatArith F) {width : Nat} {rows cols blockSize : Nat}
  {values transpose : Nat → F}

structure TransposedQuantisation (rows cols blockSize : Nat)
    (block other : FixedPointBlock width F) : Prop where
  data : Mirrored rows cols blockSize block.toBlockArrays other.toBlockArrays
  floats : ∀ output output' : Nat → F, ∀ r < rows, ∀ c < cols,
    Branches.mantissaToFloats fp block output (r * cols + c) =
      Branches.mantissaToFloats fp other output' (c * rows + r)
  product : ∀ (output output' : Nat → F) (otherExponent : Int), ∀ r < rows, ∀ c < cols,
    Branches.mantissaToFloatsProduct fp block output otherExponent (r * cols + c) =
      Branches.mantissaToFloatsProduct fp other output' otherExponent (c * rows + r)

def quantised (memory : BlockArrays width F) (fresh : Nat → BitVec width)
    (numRows numColumns blockSize : Nat) (blockColumns : Bool) (values : Nat → F)
    (arguments : EncodeArguments F) : FixedPointBlock width F :=
  let block := FixedPointBlock.create memory numRows numColumns blockSize blockColumns
  let block := Branches.fitExponent fp block values
  Branches.floatsToMantissa fp block { arguments with floatsArray := values } fresh

-- Quantising in blocks down the columns is quantising the transpose in blocks along the rows.
theorem orientation_transposes (memory memory' : BlockArrays width F)
    (fresh fresh' : Nat → BitVec width) (arguments : EncodeArguments F) (positive : 0 < blockSize)
    (mirrored : TransposeOf rows cols transpose values) :
    TransposedQuantisation fp rows cols blockSize
      (quantised fp memory fresh rows cols blockSize false values arguments)
      (quantised fp memory' fresh' cols rows blockSize true transpose arguments) := by
  have left : quantised fp memory fresh rows cols blockSize false values arguments =
      (columnBlock rows cols blockSize
        ((FixedPointBlock.create memory rows cols blockSize false).fitExponent fp
          values).toBlockArrays).floatsToMantissa fp { arguments with floatsArray := values } := by
    rw [quantised, Branches.fitExponent_unified, Branches.floatsToMantissa_unified]
    rfl
  have right : quantised fp memory' fresh' cols rows blockSize true transpose arguments =
      (rowBlock rows cols blockSize
        ((FixedPointBlock.create memory' cols rows blockSize true).fitExponent fp
          transpose).toBlockArrays).floatsToMantissa fp
            { arguments with floatsArray := transpose } := by
    rw [quantised, Branches.fitExponent_unified, Branches.floatsToMantissa_unified]
    rfl
  have data := floatsToMantissa_mirrored fp arguments mirrored positive
    (fitExponent_mirrored fp memory memory' mirrored)
  rw [left, right]
  constructor
  · exact data
  · intro output output' r row c below
    rw [Branches.mantissaToFloats_unified, Branches.mantissaToFloats_unified]
    exact decodedWith_mirrored positive data (fun mantissa exponent precision mean =>
      fp.add (fp.mul (fp.ofInt mantissa.toInt) (fastPow2 fp (exponent - precision))) mean)
      output output' row below
  · intro output output' otherExponent r row c below
    rw [Branches.mantissaToFloatsProduct_unified, Branches.mantissaToFloatsProduct_unified]
    exact decodedWith_mirrored positive data (fun mantissa exponent precision mean =>
      fp.add
        (fp.mul (fp.ofInt mantissa.toInt) (fastPow2 fp (exponent - precision - otherExponent)))
        (fp.mul mean (fastPow2 fp (-otherExponent))))
      output output' row below

end Orientation

-- Two rows of three numbers, in blocks of two.
theorem orientation_transposes_sample :
    TransposedQuantisation (exact default) 2 3 2
      (quantised (exact default) (default : BlockArrays 8 ℚ) (fun _ => 0) 2 3 2 false (fun i => i)
        { floatsArray := fun _ => 0, fixedExponent := 0, forcePrecision := 0,
          other := .default (exact default) })
      (quantised (exact default) (default : BlockArrays 8 ℚ) (fun _ => 1) 3 2 2 true
        (fun i => (i % 2 * 3 + i / 2 : Nat))
        { floatsArray := fun _ => 0, fixedExponent := 0, forcePrecision := 0,
          other := .default (exact default) }) := by
  apply orientation_transposes (exact default) default default _ _ _ (by decide)
  intro r row c below
  have remainder : (c * 2 + r) % 2 = r := by omega
  have quotient : (c * 2 + r) / 2 = c := by omega
  simp only [remainder, quotient]

end NpuMatmul
