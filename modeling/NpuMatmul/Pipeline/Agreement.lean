import NpuMatmul.Pipeline.SplitInvariance

set_option autoImplicit false

namespace NpuMatmul

open Loop Binary32

section Agreement

variable {F : Type} (fp : FloatArith F)

def columnStats (B : Nat → F) (N K c : Nat) : BlockStats F :=
  forLoop K (fun k (stats : BlockStats F) => stats.scan fp (B (k * N + c))) (BlockStats.empty fp)

def cellValue (A B : Nat → F) (K N r c : Nat) (raw : BitVec 16) : F :=
  let statsA := rowStats fp A K r
  let statsB := columnStats fp B N K c
  fp.add
    (fp.mul (fp.ofInt (raw.toNat - 32768)) (fastPow2 fp (statsA.exponent + statsB.exponent - 16)))
    (fp.mul (fp.mul (fp.ofInt K) (statsA.mean fp)) (statsB.mean fp))

def KernelsAgree (M K N : Nat) (A B : Nat → F) : Prop :=
  ∀ (backend : Backend) (memory : Int8Memory F) (other : TiledMemory F) (C D : Nat → F),
    ∀ r < M, ∀ c < N,
      matmulInt8 fp backend memory A B C M K N (r * N + c) =
        matmulTiled fp backend other A B D M K N whole (r * N + c)

-- No cell depends on the raw output, nor on being added to 0 rather than assigned.
def OutputIgnored (M K N : Nat) (A B : Nat → F) : Prop :=
  ∀ r < M, ∀ c < N, ∀ raw other : BitVec 16,
    cellValue fp A B K N r c raw = fp.add (zeroFloat fp) (cellValue fp A B K N r c other)

variable {M K N : Nat}

theorem rowStats_transposed (B buffer : Nat → F) {c : Nat} (inside : c < N) :
    rowStats fp (transposed B N K buffer) K c = columnStats fp B N K c := by
  apply forLoop_congr
  intro k stats within
  rw [transposed_apply B buffer inside within]

theorem dequantized_cell {width : Nat} {blockA : BlockArrays width F} {blockB : BlockArrays 8 F}
    {A B buffer : Nat → F} {r c : Nat} (inside : c < N) (storedA : EncodedRow fp blockA A K r)
    (storedB : EncodedRow fp blockB (transposed B N K buffer) K c) (raw : BitVec 16) :
    dequantized fp blockA blockB K r c raw = cellValue fp A B K N r c raw := by
  simp only [dequantized, cellValue, storedA.exponent, storedA.mean, storedA.precision,
    storedB.exponent, storedB.mean, storedB.precision, rowStats_transposed fp B buffer inside]
  rfl

theorem matmulInt8_value (backend : Backend) (memory : Int8Memory F) (A B C : Nat → F)
    (positive : 0 < K) {r c : Nat} (below : r < M) (inside : c < N) :
    matmulInt8 fp backend memory A B C M K N (r * N + c) =
      cellValue fp A B K N r c (backend (int8Call fp memory A B M K N) (r * N + c)) := by
  rw [matmulInt8_cell fp backend memory A B C below inside]
  exact dequantized_cell fp inside (encoded_row fp memory.blockA A below positive)
    (encoded_row fp memory.blockB _ inside positive) _

theorem matmulTiled_value (backend : Backend) (memory : TiledMemory F) (A B C : Nat → F)
    (positive : 0 < K) {r c : Nat} (below : r < M) (inside : c < N) :
    matmulTiled fp backend memory A B C M K N whole (r * N + c) =
      fp.add (zeroFloat fp) (cellValue fp A B K N r c
        (backend (tiledCall fp memory A B M K N whole 0) (r * N + c))) := by
  have tall : r < M / whole.m := by simpa [whole] using below
  have wide : c < N / whole.n := by simpa [whole] using inside
  rw [matmulTiled_cell fp backend memory A B C tall wide]
  simp only [whole, Nat.div_one, forLoop]
  exact congrArg (fp.add (zeroFloat fp))
    (dequantized_cell fp inside (encoded_row fp memory.blockA A below positive)
      (encoded_row fp memory.blockB _ inside positive) _)

theorem int8Call_staged (memory : Int8Memory F) (A B : Nat → F) :
    (∀ i < M * K, (int8Call fp memory A B M K N).a.bytes.getD i 0 =
        (int8BlockA fp memory A M K).mantissa i + 127#8) ∧
      ∀ i < N * K, (int8Call fp memory A B M K N).b.bytes.getD i 0 =
        (int8BlockB fp memory B K N).mantissa i + 127#8 := by
  simp only [int8Call, fullyConnectedCall, tensorA, tensorB, getDataTypeSize]
  constructor
  · intro i within
    rw [getD_bytesOf _ (by omega)]
    exact store_written (M * K) id _ memory.uA (by simp; omega) i within
  · intro i within
    rw [getD_bytesOf _ (by omega)]
    exact store_written (N * K) id _ memory.uB (by simp; omega) i within

-- The last byte of A's 2 M K is beyond what the kernel writes.
theorem int8Call_stale (memory : Int8Memory F) (A B : Nat → F) (cells : 0 < M * K) :
    (int8Call fp memory A B M K N).a.bytes.getD (2 * (M * K) - 1) 0 =
      memory.uA (2 * (M * K) - 1) := by
  simp only [int8Call, fullyConnectedCall, tensorA, getDataTypeSize]
  rw [getD_bytesOf _ (by omega), store_other]
  intro index below same
  simp only [id] at same
  omega

def blankArrays (width : Nat) : BlockArrays width F :=
  { mantissa := fun _ => 0, exponents := fun _ => 0, means := fun _ => zeroFloat fp,
    stdDevs := fun _ => zeroFloat fp, precisions := fun _ => 0 }

def blankInt8 (stale : BitVec 8) : Int8Memory F :=
  { blockA := blankArrays fp 8, blockB := blankArrays fp 8, sliceB := fun _ => zeroFloat fp,
    uA := fun _ => stale, uB := fun _ => 0 }

def blankTiled : TiledMemory F :=
  { blockA := blankArrays fp 16, blockB := blankArrays fp 8, uABuf := fun _ _ => 0,
    uBBuf := fun _ _ => 0 }

theorem calls_differ (other : TiledMemory F) (A B : Nat → F) (cells : 0 < M * K) :
    ∃ stale : BitVec 8,
      int8Call fp (blankInt8 fp stale) A B M K N ≠ tiledCall fp other A B M K N whole 0 := by
  let last := (tiledCall fp other A B M K N whole 0).a.bytes.getD (2 * (M * K) - 1) 0
  refine ⟨last + 1, ?_⟩
  intro same
  have read := int8Call_stale fp (N := N) (blankInt8 fp (last + 1)) A B cells
  rw [same] at read
  change last = last + 1 at read
  bv_omega

theorem outputIgnored_of_agree (positive : 0 < K) {A B : Nat → F}
    (agree : KernelsAgree fp M K N A B) : OutputIgnored fp M K N A B := by
  intro r below c inside raw other
  obtain ⟨stale, differ⟩ := calls_differ fp (N := N) (blankTiled fp) A B
    (Nat.mul_pos (by omega : 0 < M) positive)
  -- A backend may tell the two calls apart, so it may answer them with any two words.
  let backend : Backend := fun call _ =>
    if call = int8Call fp (blankInt8 fp stale) A B M K N then raw else other
  have cell := agree backend (blankInt8 fp stale) (blankTiled fp) (fun _ => zeroFloat fp)
    (fun _ => zeroFloat fp) r below c inside
  rw [matmulInt8_value fp backend _ A B _ positive below inside,
    matmulTiled_value fp backend _ A B _ positive below inside] at cell
  simpa [backend, Ne.symm differ] using cell

theorem agree_of_outputIgnored (positive : 0 < K) {A B : Nat → F}
    (ignored : OutputIgnored fp M K N A B) : KernelsAgree fp M K N A B := by
  intro backend memory other C D r below c inside
  rw [matmulInt8_value fp backend memory A B C positive below inside,
    matmulTiled_value fp backend other A B D positive below inside]
  exact ignored r below c inside _ _

end Agreement

section Exact

def ScaleVanishes (shift : Int) : Prop := (127 + shift) % 256 = 0

instance (shift : Int) : Decidable (ScaleVanishes shift) := by
  unfold ScaleVanishes
  infer_instance

theorem fastPow2_vanishes (shift : Int) :
    (∀ host : Unspecified, fastPow2 (exact host) shift = 0) ↔ ScaleVanishes shift := by
  let bits := BitVec.ofInt 32 ((127 + shift) * 2 ^ 23)
  have field : (biased bits : Int) = (127 + shift) % 256 := by
    simp only [biased, bits, BitVec.toNat_ofInt]
    omega
  have part : fraction bits = 0 := by
    simp only [fraction, bits, BitVec.toNat_ofInt]
    omega
  constructor
  · intro zero
    -- The host may read an infinity as any rational, so the field is not 255 either.
    have read := zero { sqrt := id, nonFinite := fun _ => 1, outOfRange := fun _ _ => 0 }
    change (if biased bits = 255 then (1 : ℚ) else value bits) = 0 at read
    by_contra nonzero
    have normal : biased bits ≠ 0 := by
      intro equal
      exact nonzero (by rw [ScaleVanishes, ← field, equal]; rfl)
    split at read
    · exact one_ne_zero read
    · have lower := (magnitude_bounds normal).1
      have positive := pow_pos' ((biased bits : Int) - 127)
      rw [← abs_value, read, abs_zero] at lower
      linarith
  · intro vanishes host
    have zero : biased bits = 0 := by
      rw [ScaleVanishes, ← field] at vanishes
      exact_mod_cast vanishes
    have finite : biased bits ≠ 255 := by omega
    change (if biased bits = 255 then host.nonFinite bits else value bits) = 0
    rw [if_neg finite]
    simp [value, magnitude, significand, zero, part]

theorem cellValue_exact (host : Unspecified) (A B : Nat → ℚ) {K N r c : Nat} (inside : c < N)
    (raw : BitVec 16) :
    cellValue (exact host) A B K N r c raw =
      (raw.toNat - 32768) * cellScale host A B K N r c +
        K * average K (row A K r) * average K (column B N c) := by
  have stats := rowStats_transposed (exact host) (K := K) B (fun _ => 0) inside
  simp only [cellValue, ← stats, rowStats_exponent, rowStats_mean, transposed_exponent _ _ inside,
    transposed_mean _ _ inside, exact_add, exact_mul, exact_ofInt, cellScale]
  push_cast
  rfl

theorem outputIgnored_exact {M K N : Nat} (A B : Nat → ℚ) :
    (∀ host, OutputIgnored (exact host) M K N A B) ↔
      ∀ r < M, ∀ c < N, ScaleVanishes
        (fittedExponent K (row A K r) + fittedExponent K (column B N c) - 16) := by
  constructor
  · intro ignored r below c inside
    rw [← fastPow2_vanishes]
    intro host
    have equal := ignored host r below c inside 32769#16 32768#16
    rw [cellValue_exact host A B inside, cellValue_exact host A B inside, zeroFloat_exact] at equal
    norm_num [cellScale] at equal
    exact equal
  · intro vanishes host r below c inside raw other
    have zero : cellScale host A B K N r c = 0 :=
      (fastPow2_vanishes _).mpr (vanishes r below c inside) host
    rw [cellValue_exact host A B inside, cellValue_exact host A B inside, zeroFloat_exact, zero]
    simp

end Exact

-- The int8 kernel hands the backend M K bytes where the graph reads 2 M K, so the kernels agree
-- exactly where no cell depends on the backend's output; in exact arithmetic, where every cell's
-- scale is a zero.
theorem kernelsAgree_iff_outputIgnored {M K N : Nat} (positive : 0 < K) :
    (∀ (F : Type) (fp : FloatArith F) (A B : Nat → F),
      KernelsAgree fp M K N A B ↔ OutputIgnored fp M K N A B) ∧
    ∀ A B : Nat → FiniteFloat,
      (∀ host, KernelsAgree (exact host) M K N (rational A) (rational B)) ↔
        ∀ r < M, ∀ c < N, ScaleVanishes (fittedExponent K (row (rational A) K r) +
          fittedExponent K (column (rational B) N c) - 16) := by
  constructor
  · intro F fp A B
    exact ⟨outputIgnored_of_agree fp positive, agree_of_outputIgnored fp positive⟩
  · intro A B
    rw [← outputIgnored_exact]
    constructor
    · intro agree host
      exact outputIgnored_of_agree (exact host) positive (agree host)
    · intro ignored host
      exact agree_of_outputIgnored (exact host) positive (ignored host)

section Sample

theorem fittedExponent_single {x : FiniteFloat} (normal : biased x.bits ≠ 0) :
    fittedExponent 1 (fun _ => x.toRat) = biased x.bits - 126 := by
  have field : biased (encode x.toRat) = biased x.bits := biased_encode_value x.finite
  have positive : 0 < biased x.bits := Nat.pos_of_ne_zero normal
  simp [fittedExponent, field, positive]

def tinyRow : FiniteFloat := { bits := 0x23800000#32, finite := by decide }

def tinyColumn : FiniteFloat := { bits := 0x23000000#32, finite := by decide }

theorem tiny_kernelsAgree :
    KernelsAgree (exact default) 1 1 1 (rational fun _ => tinyRow)
      (rational fun _ => tinyColumn) := by
  apply ((kernelsAgree_iff_outputIgnored (by decide)).2 _ _).mpr
  intro r _ c _
  have rowExponent : fittedExponent 1 (row (rational fun _ => tinyRow) 1 r) = -55 :=
    fittedExponent_single (by decide)
  have columnExponent : fittedExponent 1 (column (rational fun _ => tinyColumn) 1 c) = -56 :=
    fittedExponent_single (by decide)
  rw [rowExponent, columnExponent]
  decide

variable (host : Unspecified) (memory : Int8Memory ℚ)

theorem int8_mantissa_pulse {k : Nat} (within : k < 2) :
    (int8BlockA (exact host) memory (rational (pulseRows 2)) 1 2).mantissa k + 127#8 = 191#8 ∧
      (int8BlockB (exact host) memory (rational (pulseColumns 1)) 2 1).mantissa k + 127#8 =
        191#8 := by
  have mean : lineMean 2 pulse = -64 := by
    rw [lineMean_pulse (by decide)]
    decide +kernel
  have cast : castMean host 8 (-64) = -64 := castMean_fits host (by decide) (by decide)
  have code {arrays : BlockArrays 8 ℚ} {values : Nat → ℚ}
      (stored : EncodedRow (exact host) arrays values 2 0)
      (same : ∀ k < 2, row values 2 0 k = pulse k) : arrays.mantissa k + 127#8 = 191#8 := by
    have mantissa := line_mantissa host stored
      ((normalLine_pulse (by decide)).congr same) within
    rw [lineBit_congr same within, lineMean_congr same, mean, Nat.zero_mul, Nat.zero_add]
      at mantissa
    have number := line_code host mantissa
    rw [lineBit_pulse (by decide), cast] at number
    have value : (arrays.mantissa k + 127#8).toNat = 191 := by
      norm_num at number
      exact_mod_cast number
    exact BitVec.eq_of_toNat_eq value
  constructor
  · exact code (encoded_row (exact host) memory.blockA (rational (pulseRows 2)) (by decide)
      (by decide : 0 < 2)) (fun k early => row_pulse k early)
  · exact code (encoded_row (exact host) memory.blockB _ (by decide) (by decide : 0 < 2))
      (fun k early => (transposed_row _ _ (by decide) k early).trans (column_pulse (by decide) k))

-- The first word the backend reads of A is 191 + 256 * 191, so the product saturates.
theorem int8_saturates_pulse :
    saturatingBackend (int8Call (exact host) memory (rational (pulseRows 2))
      (rational (pulseColumns 1)) 1 2 1) 0 = 65535#16 := by
  let call := int8Call (exact host) memory (rational (pulseRows 2)) (rational (pulseColumns 1)) 1 2 1
  have staged := int8Call_staged (M := 1) (K := 2) (N := 1) (exact host) memory
    (rational (pulseRows 2)) (rational (pulseColumns 1))
  have byteA (k : Nat) (within : k < 2) : call.a.bytes.getD k 0 = 191#8 :=
    (staged.1 k (by omega)).trans (int8_mantissa_pulse host memory within).1
  have byteB (k : Nat) (within : k < 2) : readByte call.b.bytes k = 191 := by
    rw [readByte, (staged.2 k (by omega)).trans (int8_mantissa_pulse host memory within).2]
    rfl
  have first : readWord call.a.bytes 0 = 49087 := by
    rw [readWord, byteA _ (by decide), byteA _ (by decide)]
    rfl
  have large : 65535 ≤ centredProduct 2 call.a.bytes call.b.bytes 0 0 := by
    simp only [centredProduct, Finset.sum_range_succ, Finset.sum_range_zero, Nat.zero_mul,
      Nat.zero_add, first, byteB _ (by decide : 0 < 2), byteB _ (by decide : 1 < 2)]
    omega
  have most : min 65535 (centredProduct 2 call.a.bytes call.b.bytes 0 0) = 65535 :=
    min_eq_left large
  change BitVec.ofInt 16 (max 0 (min 65535 (centredProduct 2 call.a.bytes call.b.bytes 0 0))) = _
  rw [most]
  decide

-- [-0.5, 0] times its own transpose: 0.625 from the int8 kernel, 0.25 from the tiled one,
-- whatever the memory held.
theorem kernels_differ_on_pulse :
    ¬ ∃ (memory : Int8Memory ℚ) (other : TiledMemory ℚ),
      matmulInt8 (exact default) saturatingBackend memory (rational (pulseRows 2))
          (rational (pulseColumns 1)) (fun _ => 0) 1 2 1 0 =
        matmulTiled (exact default) saturatingBackend other (rational (pulseRows 2))
          (rational (pulseColumns 1)) (fun _ => 0) 1 2 1 whole 0 := by
  rintro ⟨memory, other, same⟩
  revert same
  have int8 := matmulInt8_value (exact default) saturatingBackend memory (rational (pulseRows 2))
    (rational (pulseColumns 1)) (fun _ => 0) (M := 1) (N := 1) (by decide : 0 < 2)
    (by decide : 0 < 1) (by decide : 0 < 1)
  have tiled := pulse_cell default other (fun _ => 0) whole (M := 1) (N := 1) (by decide : 0 < 2)
    (by decide : 0 < 1 / whole.m) (by decide : 0 < 1 / whole.n)
  have rows := row_pulse (K := 2) (r := 0)
  have columns : ∀ k < 2, column (rational (pulseColumns 1)) 1 0 k = pulse k :=
    fun k _ => column_pulse (by decide) k
  have mean : pulseMean 2 = 64 := by decide +kernel
  rw [Nat.zero_mul, Nat.zero_add] at int8 tiled
  rw [int8, tiled, int8_saturates_pulse, cellValue_exact default _ _ (by decide), cellScale,
    fittedExponent_congr rows, fittedExponent_congr columns, fittedExponent_pulse (by decide),
    average_congr rows, average_congr columns, average_pulse (by decide),
    fastPow2_exact default (by decide) (by decide), pulseUnit, mean]
  norm_num [whole]

end Sample

end NpuMatmul
