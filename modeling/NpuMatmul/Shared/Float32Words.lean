import NpuMatmul.Shared.Binary32

set_option autoImplicit false

namespace Binary32

open Float.Model

def signOf (bits : BitVec 32) : UnpackedFloat.Sign :=
  if negative bits then .negative else .positive

theorem mantissa_field (bits : BitVec 32) :
    (@UnpackedFloat.unpackMantissa .binary32 bits).toNat = fraction bits := by
  simp [UnpackedFloat.unpackMantissa, BitVec.extractLsb, fraction]

theorem exponent_field (bits : BitVec 32) :
    (@UnpackedFloat.unpackExponent .binary32 bits).toNat = biased bits := by
  simp [UnpackedFloat.unpackExponent, BitVec.extractLsb, biased, Nat.shiftRight_eq_div_pow]

theorem sign_field (bits : BitVec 32) :
    UnpackedFloat.Sign.ofBitVec (@UnpackedFloat.unpackSign .binary32 bits) =
      signOf bits := by
  have field : (@UnpackedFloat.unpackSign .binary32 bits).toNat =
      bits.toNat / 2 ^ 31 % 2 := by
    have highest : @UnpackedFloat.unpackSign .binary32 bits = bits.extractLsb 31 31 := rfl
    rw [highest]
    simp [BitVec.extractLsb, Nat.shiftRight_eq_div_pow]
  have below := bits.isLt
  have zero : @UnpackedFloat.unpackSign .binary32 bits = 0#1 ↔
      bits.toNat / 2 ^ 31 % 2 = 0 := by
    rw [← field, BitVec.toNat_eq]
    simp
  rw [UnpackedFloat.Sign.ofBitVec, signOf, negative, BitVec.msb_eq_decide]
  simp only [zero]
  split <;> split <;> simp_all <;> omega

theorem exponent_all (bits : BitVec 32) :
    @UnpackedFloat.unpackExponent .binary32 bits = -1#_ ↔ biased bits = 255 := by
  rw [← exponent_field, BitVec.toNat_eq]
  rfl

theorem exponent_none (bits : BitVec 32) :
    @UnpackedFloat.unpackExponent .binary32 bits = 0#_ ↔ biased bits = 0 := by
  rw [← exponent_field, BitVec.toNat_eq]
  rfl

theorem mantissa_none (bits : BitVec 32) :
    @UnpackedFloat.unpackMantissa .binary32 bits = 0#_ ↔ fraction bits = 0 := by
  rw [← mantissa_field, BitVec.toNat_eq]
  rfl

theorem unpack_infinity {bits : BitVec 32} (exponent : biased bits = 255) (part : fraction bits = 0) :
    UnpackedFloat.unpack Format.binary32 bits = .infinity (signOf bits) := by
  unfold UnpackedFloat.unpack
  rw [if_pos ((exponent_all bits).mpr exponent), if_pos ((mantissa_none bits).mpr part), sign_field]

def Special (number : UnpackedFloat) : Prop :=
  (∃ sign, number = .infinity sign) ∨ number = .notANumber

theorem unpack_special {bits : BitVec 32} (exponent : biased bits = 255) :
    Special (UnpackedFloat.unpack Format.binary32 bits) := by
  by_cases part : fraction bits = 0
  · exact .inl ⟨_, unpack_infinity exponent part⟩
  · right
    unfold UnpackedFloat.unpack
    rw [if_pos ((exponent_all bits).mpr exponent), if_neg (mt (mantissa_none bits).mp part)]

theorem unpack_zero {bits : BitVec 32} (exponent : biased bits = 0) (part : fraction bits = 0) :
    UnpackedFloat.unpack Format.binary32 bits = .zero (signOf bits) := by
  have finite : biased bits ≠ 255 := by omega
  unfold UnpackedFloat.unpack
  rw [if_neg (mt (exponent_all bits).mp finite), if_pos ((exponent_none bits).mpr exponent),
    dif_pos ((mantissa_none bits).mpr part), sign_field]

theorem finite_congr {sign : UnpackedFloat.Sign} {m n : Nat} {e k : Int} (mantissa : m = n)
    (exponent : e = k) (positive : 0 < m) :
    UnpackedFloat.finite sign m e positive = .finite sign n k (mantissa ▸ positive) := by
  subst mantissa exponent
  rfl

theorem unpack_finite {bits : BitVec 32} (exponent : biased bits ≠ 255) (part : significand bits ≠ 0) :
    UnpackedFloat.unpack Format.binary32 bits =
      .finite (signOf bits) (significand bits) ((max (biased bits) 1 : Nat) - 150)
        (Nat.pos_of_ne_zero part) := by
  have bias : (Format.binary32.exponentBias : Int) = 127 := by decide
  unfold UnpackedFloat.unpack
  rw [if_neg (mt (exponent_all bits).mp exponent)]
  by_cases subnormal : biased bits = 0
  · have field : fraction bits ≠ 0 := by simpa [significand, subnormal] using part
    rw [if_pos ((exponent_none bits).mpr subnormal), dif_neg (mt (mantissa_none bits).mp field),
      sign_field]
    apply finite_congr
    · rw [mantissa_field, significand, if_pos subnormal]
    · rw [exponent_field, bias, subnormal]
      rfl
  · have implicit : (1#1 ++ @UnpackedFloat.unpackMantissa .binary32 bits).toNat =
        2 ^ 23 + fraction bits := by
      have below := fraction_lt bits
      rw [BitVec.toNat_append, mantissa_field, ← Nat.shiftLeft_add_eq_or_of_lt below]
      rfl
    rw [if_neg (mt (exponent_none bits).mp subnormal), sign_field]
    apply finite_congr
    · rw [implicit, significand, if_neg subnormal]
    · have width : (Format.binary32.mantissaBitsWithoutImplicit : Int) = 23 := rfl
      rw [exponent_field, bias, width]
      omega

def minus : UnpackedFloat.Sign → Bool
  | .negative => true
  | .positive => false

theorem minus_mul (sign other : UnpackedFloat.Sign) :
    minus (sign * other) = (minus sign != minus other) := by
  cases sign <;> cases other <;> rfl

@[simp] theorem minus_signOf (bits : BitVec 32) : minus (signOf bits) = negative bits := by
  unfold signOf
  by_cases sign : negative bits = true
  · simp [sign, minus]
  · simp [sign, minus]

theorem packComponents_pack (sign : UnpackedFloat.Sign) {exponent : BitVec 8}
    {mantissa : BitVec 23} :
    UnpackedFloat.packComponents Format.binary32 sign exponent mantissa =
      pack (minus sign) exponent.toNat mantissa.toNat := by
  have below := exponent.isLt
  have part := mantissa.isLt
  apply BitVec.eq_of_toNat_eq
  rw [pack_toNat _ below part, UnpackedFloat.packComponents, BitVec.toNat_append,
    BitVec.toNat_append, ← Nat.shiftLeft_add_eq_or_of_lt part, ← Nat.shiftLeft_add_eq_or_of_lt below]
  cases sign
  · simp [UnpackedFloat.Sign.toBitVec, minus, Nat.shiftLeft_eq]
    omega
  · simp [UnpackedFloat.Sign.toBitVec, minus, Nat.shiftLeft_eq]

theorem pack_infinity (sign : UnpackedFloat.Sign) :
    UnpackedFloat.pack Format.binary32 (.infinity sign) = pack (minus sign) 255 0 :=
  packComponents_pack sign

theorem biased_infinity (sign : UnpackedFloat.Sign) :
    biased (UnpackedFloat.pack Format.binary32 (.infinity sign)) = 255 := by
  rw [pack_infinity, biased_pack _ (by decide) (by decide)]

theorem biased_notANumber : biased (UnpackedFloat.pack Format.binary32 .notANumber) = 255 := by
  decide

theorem Special.biased {number : UnpackedFloat} (special : Special number) :
    biased (UnpackedFloat.pack Format.binary32 number) = 255 := by
  rcases special with ⟨sign, rfl⟩ | rfl
  · exact biased_infinity sign
  · exact biased_notANumber

theorem special_unless (same : Bool) (sign : UnpackedFloat.Sign) :
    Special (if same then .infinity sign else .notANumber) := by
  cases same with
  | true => exact .inl ⟨sign, rfl⟩
  | false => exact .inr rfl

section Special

variable {number : UnpackedFloat} (special : Special number) (other : UnpackedFloat)
include special

theorem Special.mul_left : Special (UnpackedFloat.mul Format.binary32 number other) := by
  rcases special with ⟨sign, rfl⟩ | rfl
  · cases other with
    | infinity | finite => exact .inl ⟨_, rfl⟩
    | notANumber | zero => exact .inr rfl
  · cases other <;> exact .inr rfl

theorem Special.mul_right : Special (UnpackedFloat.mul Format.binary32 other number) := by
  rcases special with ⟨sign, rfl⟩ | rfl
  · cases other with
    | infinity | finite => exact .inl ⟨_, rfl⟩
    | notANumber | zero => exact .inr rfl
  · cases other <;> exact .inr rfl

theorem Special.add_left : Special (UnpackedFloat.add Format.binary32 number other) := by
  rcases special with ⟨sign, rfl⟩ | rfl
  · cases other with
    | finite | zero => exact .inl ⟨_, rfl⟩
    | notANumber => exact .inr rfl
    | infinity opposite => exact special_unless _ _
  · cases other <;> exact .inr rfl

theorem Special.add_right : Special (UnpackedFloat.add Format.binary32 other number) := by
  rcases special with ⟨sign, rfl⟩ | rfl
  · cases other with
    | finite | zero => exact .inl ⟨_, rfl⟩
    | notANumber => exact .inr rfl
    | infinity opposite => exact special_unless _ _
  · cases other <;> exact .inr rfl

end Special

theorem pack_zero (sign : UnpackedFloat.Sign) :
    UnpackedFloat.pack Format.binary32 (.zero sign) = pack (minus sign) 0 0 :=
  packComponents_pack sign

theorem pack_overflow (sign : UnpackedFloat.Sign) {m : Nat} {e : Int} (positive : 0 < m)
    (large : 105 ≤ e) :
    UnpackedFloat.pack Format.binary32 (.finite sign m e positive) = pack (minus sign) 255 0 := by
  have bias : (Format.binary32.exponentBias : Int) = 127 := by decide
  have width : (Format.binary32.mantissaBitsWithoutImplicit : Int) = 23 := rfl
  have out : 2 ^ Format.binary32.exponentBits ≤ (e + (Format.binary32.exponentBias : Int) +
      (Format.binary32.mantissaBitsWithoutImplicit : Int)).toNat + 1 := by
    rw [bias, width]
    norm_num
    omega
  unfold UnpackedFloat.pack
  rw [if_pos out]
  exact packComponents_pack sign

theorem pack_finite (sign : UnpackedFloat.Sign) {m : Nat} {e : Int} (positive : 0 < m)
    (wide : m < 2 ^ 24) (least : -149 ≤ e) (most : e ≤ 104) :
    UnpackedFloat.pack Format.binary32 (.finite sign m e positive) =
      pack (minus sign) (if 2 ^ 23 ≤ m then (e + 150).toNat else 0) (m % 2 ^ 23) := by
  have bias : (Format.binary32.exponentBias : Int) = 127 := by decide
  have width : (Format.binary32.mantissaBitsWithoutImplicit : Int) = 23 := rfl
  have bits : Format.binary32.mantissaBits = 24 := by decide
  have field : (e + (Format.binary32.exponentBias : Int) +
      (Format.binary32.mantissaBitsWithoutImplicit : Int)).toNat = (e + 150).toNat := by
    rw [bias, width]
    omega
  have inside : ¬ 2 ^ Format.binary32.exponentBits ≤ (e + 150).toNat + 1 := by
    norm_num
    omega
  have log : m.log2 + 1 = 24 ↔ 2 ^ 23 ≤ m := by
    have lower := @Nat.le_log2 m 23 (by omega)
    have upper := @Nat.log2_lt m 24 (by omega)
    omega
  unfold UnpackedFloat.pack
  rw [field, if_neg inside, bits]
  simp only [log]
  by_cases normal : 2 ^ 23 ≤ m
  · rw [if_pos normal, if_pos normal, packComponents_pack]
    congr 1
    simp
    omega
  · rw [if_neg normal, if_neg normal, packComponents_pack]
    congr 1

structure Stored (m : Nat) (e : Int) : Prop where
  wide : m < 2 ^ 24
  least : -149 ≤ e
  canonical : 2 ^ 23 ≤ m ∨ e = -149

theorem Stored.fields {m : Nat} {e : Int} (stored : Stored m e) (most : e ≤ 104)
    (positive : 0 < m) (sign : UnpackedFloat.Sign) :
    let word := UnpackedFloat.pack Format.binary32 (.finite sign m e positive)
    biased word = (if 2 ^ 23 ≤ m then (e + 150).toNat else 0) ∧
      negative word = minus sign ∧ magnitude word = m * 2 ^ e := by
  obtain ⟨wide, least, canonical⟩ := stored
  have exponent : (if 2 ^ 23 ≤ m then (e + 150).toNat else 0) < 2 ^ 8 := by split <;> omega
  have part : m % 2 ^ 23 < 2 ^ 23 := Nat.mod_lt _ (by decide)
  intro word
  have packed : word = _ := pack_finite sign positive wide least most
  simp only [packed, biased_pack _ exponent part, negative_pack _ exponent part, magnitude,
    significand, fraction_pack _ exponent part, true_and]
  by_cases normal : 2 ^ 23 ≤ m
  · have nonzero : (e + 150).toNat ≠ 0 := by omega
    have whole : 2 ^ 23 + m % 2 ^ 23 = m := by omega
    have field : ((max (e + 150).toNat 1 : Nat) - 150 : Int) = e := by omega
    rw [if_pos normal, if_neg nonzero, whole, field]
  · have small : m % 2 ^ 23 = m := Nat.mod_eq_of_lt (by omega)
    have lowest : e = -149 := canonical.resolve_left normal
    rw [if_neg normal, if_pos rfl, small, lowest]
    rfl

theorem pack_parts (bits : BitVec 32) : pack (negative bits) (biased bits) (fraction bits) = bits := by
  have below := bits.isLt
  have part := fraction_lt bits
  apply BitVec.eq_of_toNat_eq
  rw [pack_toNat _ (biased_lt bits) part]
  by_cases sign : negative bits = true
  · have large : 2 ^ 31 ≤ bits.toNat := by simpa [negative, BitVec.msb_eq_decide] using sign
    rw [sign, biased, fraction, Bool.toNat_true]
    omega
  · have small : bits.toNat < 2 ^ 31 := by simpa [negative, BitVec.msb_eq_decide] using sign
    rw [Bool.eq_false_of_not_eq_true sign, biased, fraction, Bool.toNat_false]
    omega

theorem stored_significand (bits : BitVec 32) :
    Stored (significand bits) ((max (biased bits) 1 : Nat) - 150) := by
  have below := significand_lt bits
  refine { wide := below, least := by omega, canonical := ?_ }
  by_cases subnormal : biased bits = 0
  · exact .inr (by omega)
  · exact .inl (by rw [significand, if_neg subnormal]; omega)

-- A word is a number, an infinity or a NaN by its exponent field.
def NotNaN (bits : BitVec 32) : Prop := biased bits = 255 → fraction bits = 0

instance (bits : BitVec 32) : Decidable (NotNaN bits) := by
  unfold NotNaN
  infer_instance

theorem pack_unpack {bits : BitVec 32} (number : NotNaN bits) :
    UnpackedFloat.pack Format.binary32 (UnpackedFloat.unpack Format.binary32 bits) = bits := by
  have below := biased_lt bits
  have part := fraction_lt bits
  by_cases infinite : biased bits = 255
  · have parts := pack_parts bits
    rw [unpack_infinity infinite (number infinite), pack_infinity, minus_signOf]
    rw [infinite, number infinite] at parts
    exact parts
  · by_cases zero : significand bits = 0
    · have subnormal : biased bits = 0 := by
        by_contra normal
        rw [significand, if_neg normal] at zero
        omega
      have none : fraction bits = 0 := by simpa [significand, subnormal] using zero
      have parts := pack_parts bits
      rw [unpack_zero subnormal none, pack_zero, minus_signOf]
      rw [subnormal, none] at parts
      exact parts
    · have stored := stored_significand bits
      rw [unpack_finite infinite zero,
        pack_finite _ _ stored.wide stored.least (by omega), minus_signOf]
      refine Eq.trans ?_ (pack_parts bits)
      by_cases subnormal : biased bits = 0
      · have whole : significand bits = fraction bits := by rw [significand, if_pos subnormal]
        rw [whole, if_neg (by omega), Nat.mod_eq_of_lt part, subnormal]
      · have whole : significand bits = 2 ^ 23 + fraction bits := by
          rw [significand, if_neg subnormal]
        have field : ((max (biased bits) 1 : Nat) - 150 + 150 : Int).toNat = biased bits := by omega
        rw [whole, if_pos (by omega), field, Nat.add_mod_left, Nat.mod_eq_of_lt part]

def word (x : Float32.Model) : BitVec 32 := x.toBits.toBitVec

def ofWord (bits : BitVec 32) : Float32.Model := .ofBits (UInt32.ofBitVec bits)

@[simp] theorem word_ofWord {bits : BitVec 32} (number : NotNaN bits) : word (ofWord bits) = bits :=
  pack_unpack number

@[simp] theorem unpack_word (x : Float32.Model) :
    UnpackedFloat.unpack Format.binary32 (word x) = x.unpack := rfl

theorem word_mul (x y : Float32.Model) :
    word (x.mul y) = UnpackedFloat.pack Format.binary32
      (UnpackedFloat.mul Format.binary32 x.unpack y.unpack) := rfl

theorem zero_fields {bits : BitVec 32} (zero : significand bits = 0) :
    biased bits = 0 ∧ fraction bits = 0 := by
  by_cases subnormal : biased bits = 0
  · exact ⟨subnormal, by simpa [significand, subnormal] using zero⟩
  · rw [significand, if_neg subnormal] at zero
    omega

theorem unpack_number {bits : BitVec 32} (finite : biased bits ≠ 255) :
    (significand bits = 0 ∧
        UnpackedFloat.unpack Format.binary32 bits = .zero (signOf bits)) ∨
      ∃ nonzero : significand bits ≠ 0, UnpackedFloat.unpack Format.binary32 bits =
        .finite (signOf bits) (significand bits) ((max (biased bits) 1 : Nat) - 150)
          (Nat.pos_of_ne_zero nonzero) := by
  by_cases zero : significand bits = 0
  · obtain ⟨subnormal, none⟩ := zero_fields zero
    exact .inl ⟨zero, unpack_zero subnormal none⟩
  · exact .inr ⟨zero, unpack_finite finite zero⟩

theorem mul_zero_word {x y : Float32.Model} (finite : biased (word x) ≠ 255)
    (zero : significand (word y) = 0) :
    word (x.mul y) = pack (negative (word x) != negative (word y)) 0 0 := by
  obtain ⟨subnormal, none⟩ := zero_fields zero
  have right : y.unpack = .zero (signOf (word y)) := unpack_zero subnormal none
  rw [word_mul, right, ← minus_signOf (word x), ← minus_signOf (word y), ← minus_mul, ← pack_zero,
    ← unpack_word x]
  rcases unpack_number finite with ⟨_, left⟩ | ⟨_, left⟩
  · rw [left]
    rfl
  · rw [left]
    rfl

theorem mul_special {x y : Float32.Model}
    (special : biased (word x) = 255 ∨ biased (word y) = 255) :
    biased (word (x.mul y)) = 255 := by
  rw [word_mul]
  rcases special with left | right
  · exact ((unpack_special left).mul_left _).biased
  · exact ((unpack_special right).mul_right _).biased

theorem word_add (x y : Float32.Model) :
    word (x.add y) = UnpackedFloat.pack Format.binary32
      (UnpackedFloat.add Format.binary32 x.unpack y.unpack) := rfl

theorem add_special {x y : Float32.Model}
    (special : biased (word x) = 255 ∨ biased (word y) = 255) :
    biased (word (x.add y)) = 255 := by
  rw [word_add]
  rcases special with left | right
  · exact ((unpack_special left).add_left _).biased
  · exact ((unpack_special right).add_right _).biased

end Binary32
