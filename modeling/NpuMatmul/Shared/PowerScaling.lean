import NpuMatmul.Shared.Float32Words

set_option autoImplicit false

namespace Binary32

open Float.Model

open UnpackedFloat in
theorem shiftRight_mantissa (extended : ExtendedMantissa) (n : Nat) :
    (extended >>> n).mantissa = extended.mantissa / 2 ^ n := by
  change (n.repeat ExtendedMantissa.shiftRightOne extended).mantissa = _
  induction n with
  | zero => simp [Nat.repeat]
  | succ n ih => rw [Nat.repeat, ExtendedMantissa.shiftRightOne, ih, Nat.div_div_eq_div_mul, ← pow_succ]

open UnpackedFloat in
theorem shiftRight_exact {m : Nat} (n : Nat) (divides : 2 ^ n ∣ m) :
    ExtendedMantissa.ofMantissaAndAccuracy m .exact >>> n =
      ExtendedMantissa.ofMantissaAndAccuracy (m / 2 ^ n) .exact := by
  change n.repeat ExtendedMantissa.shiftRightOne _ = _
  induction n with
  | zero => simp [Nat.repeat]
  | succ n ih =>
    have earlier := ih (Dvd.dvd.trans (pow_dvd_pow 2 (Nat.le_succ n)) divides)
    have even : m / 2 ^ n % 2 = 0 := by
      obtain ⟨k, rfl⟩ := divides
      rw [pow_succ, Nat.mul_assoc, Nat.mul_div_cancel_left _ (Nat.two_pow_pos n)]
      omega
    rw [Nat.repeat, earlier, pow_succ, ← Nat.div_div_eq_div_mul]
    simp [ExtendedMantissa.shiftRightOne, ExtendedMantissa.ofMantissaAndAccuracy, even]

open UnpackedFloat in
theorem roundedMantissa_le (extended : ExtendedMantissa) :
    extended.roundedMantissa ≤ extended.mantissa + 1 := by
  obtain ⟨m, round, sticky⟩ := extended
  cases round <;> cases sticky <;>
    simp [ExtendedMantissa.roundedMantissa, ExtendedMantissa.accuracy, Accuracy.roundToNearestEven]
  omega

theorem target_exponent (m : Nat) (e : Int) :
    Format.binary32.targetExponent (totalExponent m e) = max (m.log2 + e - 23) (-149) := by
  have bits : (Format.binary32.mantissaBits : Int) = 24 := by decide
  have lowest : Format.binary32.minExponent = -149 := by decide
  rw [Format.targetExponent, totalExponent, bits, lowest]
  congr 1
  ring

theorem log2_lt {m n : Nat} (below : m < 2 ^ (n + 1)) : m.log2 ≤ n := by
  by_cases zero : m = 0
  · subst zero
    simp
  · have bound := (Nat.log2_lt zero).mpr below
    omega

theorem log2_shifted {m : Nat} (positive : 0 < m) (k : Nat) : (m * 2 ^ k).log2 = m.log2 + k := by
  have scale := Nat.two_pow_pos k
  have nonzero : m * 2 ^ k ≠ 0 := Nat.mul_ne_zero (by omega) (by omega)
  rw [Nat.log2_eq_iff nonzero, pow_add, Nat.add_right_comm, pow_add]
  constructor
  · exact Nat.mul_le_mul_right _ (Nat.log2_self_le (by omega))
  · exact Nat.mul_lt_mul_of_pos_right Nat.lt_log2_self scale

theorem Stored.target {m : Nat} {e : Int} (stored : Stored m e) :
    Format.binary32.targetExponent (totalExponent m e) = e := by
  obtain ⟨wide, least, canonical⟩ := stored
  have upper : m.log2 ≤ 23 := log2_lt (by omega)
  rw [target_exponent]
  rcases canonical with normal | lowest
  · have lower := (@Nat.le_log2 m 23 (by omega)).mpr normal
    omega
  · omega

open UnpackedFloat in
theorem shiftToTarget_stored {m : Nat} {e : Int} (stored : Stored m e) :
    shiftToTargetExponent Format.binary32 m e .exact =
      (ExtendedMantissa.ofMantissaAndAccuracy m .exact, e) := by
  have shift : (e - e).toNat = 0 := by omega
  rw [shiftToTargetExponent, stored.target, shiftToExponent, shift]
  simp only [Nat.cast_zero, Int.add_zero]
  rfl

open UnpackedFloat in
def shiftedNumber (sign : Sign) (final : ExtendedMantissa × Int) : UnpackedFloat :=
  if zero : final.1.mantissa = 0 then .zero sign
  else .finite sign final.1.mantissa final.2 (Nat.pos_of_ne_zero zero)

open UnpackedFloat in
theorem round_steps (sign : Sign) {m q : Nat} {e k : Int} {extended : ExtendedMantissa}
    (first : shiftToTargetExponent Format.binary32 m e .exact = (extended, k))
    (rounded : extended.roundedMantissa = q) (stored : Stored q k) :
    roundWithAccuracy Format.binary32 sign m e .exact =
      if zero : q = 0 then .zero sign else .finite sign q k (Nat.pos_of_ne_zero zero) := by
  calc roundWithAccuracy Format.binary32 sign m e .exact
      = shiftedNumber sign (shiftToTargetExponent Format.binary32
          (shiftToTargetExponent Format.binary32 m e .exact).1.roundedMantissa
          (shiftToTargetExponent Format.binary32 m e .exact).2 .exact) := rfl
    _ = shiftedNumber sign (ExtendedMantissa.ofMantissaAndAccuracy q .exact, k) := by
        rw [first, rounded, shiftToTarget_stored stored]
    _ = if zero : q = 0 then .zero sign else .finite sign q k (Nat.pos_of_ne_zero zero) := rfl

open UnpackedFloat in
theorem round_stored (sign : Sign) {m : Nat} {e : Int} (stored : Stored m e) (positive : 0 < m)
    (k : Nat) :
    roundWithAccuracy Format.binary32 sign (m * 2 ^ k) (e - k) .exact =
      .finite sign m e positive := by
  have log : (m * 2 ^ k).log2 = m.log2 + k := log2_shifted positive k
  have target : Format.binary32.targetExponent (totalExponent (m * 2 ^ k) (e - k)) = e := by
    have same := stored.target
    rw [target_exponent] at same ⊢
    rw [log]
    push_cast
    omega
  have shift : (e - (e - k)).toNat = k := by omega
  have first : shiftToTargetExponent Format.binary32 (m * 2 ^ k) (e - k) .exact =
      (ExtendedMantissa.ofMantissaAndAccuracy m .exact, e) := by
    rw [shiftToTargetExponent, target, shiftToExponent, shift,
      shiftRight_exact k (Dvd.intro_left m rfl), Nat.mul_div_cancel _ (Nat.two_pow_pos k)]
    simp
  have kept : (ExtendedMantissa.ofMantissaAndAccuracy m .exact).roundedMantissa = m := rfl
  rw [round_steps sign first kept stored, dif_neg (by omega)]

open UnpackedFloat in
theorem round_tiny (sign : Sign) {m : Nat} {e : Int} (tiny : m.log2 + e ≤ -127)
    (fine : e ≤ -149) :
    roundWithAccuracy Format.binary32 sign m e .exact = .zero sign ∨
      ∃ q, ∃ positive : 0 < q, q ≤ 2 ^ 23 ∧
        roundWithAccuracy Format.binary32 sign m e .exact = .finite sign q (-149) positive := by
  have target : Format.binary32.targetExponent (totalExponent m e) = -149 := by
    rw [target_exponent]
    omega
  have amount : e + ((-149 - e).toNat : Int) = -149 := by omega
  have first : shiftToTargetExponent Format.binary32 m e .exact =
      (ExtendedMantissa.ofMantissaAndAccuracy m .exact >>> (-149 - e).toNat, -149) := by
    rw [shiftToTargetExponent, target, shiftToExponent, amount]
  have bound : (ExtendedMantissa.ofMantissaAndAccuracy m .exact >>>
      (-149 - e).toNat).roundedMantissa ≤ 2 ^ 23 := by
    have most := roundedMantissa_le
      (ExtendedMantissa.ofMantissaAndAccuracy m .exact >>> (-149 - e).toNat)
    rw [shiftRight_mantissa] at most
    have part : m / 2 ^ (-149 - e).toNat < 2 ^ 23 := by
      rw [Nat.div_lt_iff_lt_mul (Nat.two_pow_pos _), ← pow_add]
      calc m < 2 ^ (m.log2 + 1) := Nat.lt_log2_self
        _ ≤ 2 ^ (23 + (-149 - e).toNat) := Nat.pow_le_pow_right (by decide) (by omega)
    exact le_trans most part
  obtain ⟨q, rounded⟩ : ∃ q, (ExtendedMantissa.ofMantissaAndAccuracy m .exact >>>
      (-149 - e).toNat).roundedMantissa = q := ⟨_, rfl⟩
  rw [rounded] at bound
  have stored : Stored q (-149) :=
    { wide := by omega, least := le_rfl, canonical := .inr rfl }
  rw [round_steps sign first rounded stored]
  by_cases zero : q = 0
  · exact .inl (dif_pos zero)
  · exact .inr ⟨q, by omega, bound, dif_neg zero⟩

open UnpackedFloat in
theorem round_natural (sign : Sign) {n : Nat} (positive : 0 < n) (small : n < 2 ^ 24) :
    ∃ q e, ∃ nonzero : 0 < q, Stored q e ∧ e ≤ 0 ∧ (q : ℚ) * 2 ^ e = n ∧
      round Format.binary32 sign n 0 = .finite sign q e nonzero := by
  have log : n.log2 ≤ 23 := log2_lt small
  have target : Format.binary32.targetExponent (totalExponent n 0) = -(23 - n.log2 : Nat) := by
    rw [target_exponent]
    omega
  have amount : (0 - -((23 - n.log2 : Nat) : Int)).toNat = 23 - n.log2 := by omega
  have least : 2 ^ 23 ≤ n * 2 ^ (23 - n.log2) := by
    calc 2 ^ 23 = 2 ^ n.log2 * 2 ^ (23 - n.log2) := by
          rw [← pow_add]
          congr 1
          omega
      _ ≤ n * 2 ^ (23 - n.log2) := Nat.mul_le_mul_right _ (Nat.log2_self_le (by omega))
  have most : n * 2 ^ (23 - n.log2) < 2 ^ 24 := by
    calc n * 2 ^ (23 - n.log2) < 2 ^ (n.log2 + 1) * 2 ^ (23 - n.log2) :=
          Nat.mul_lt_mul_of_pos_right Nat.lt_log2_self (Nat.two_pow_pos _)
      _ = 2 ^ 24 := by
          rw [← pow_add]
          congr 1
          omega
  have stored : Stored (n * 2 ^ (23 - n.log2)) (-(23 - n.log2 : Nat)) :=
    { wide := most, least := by omega, canonical := .inl least }
  refine ⟨n * 2 ^ (23 - n.log2), -(23 - n.log2 : Nat), by omega, stored, by omega, ?_, ?_⟩
  · rw [zpow_neg, zpow_natCast]
    push_cast
    field_simp
  · have rounded := round_stored sign stored (by omega) 0
    rw [pow_zero, Nat.mul_one, Nat.cast_zero, Int.sub_zero] at rounded
    have shifted : round Format.binary32 sign n 0 = roundWithAccuracy Format.binary32 sign
        (n * 2 ^ (23 - n.log2)) (-(23 - n.log2 : Nat)) .exact := by
      simp only [UnpackedFloat.round, target, decreaseExponent, amount, Nat.shiftLeft_eq]
      rw [zero_sub]
    rw [shifted]
    exact rounded

theorem word_ofInt {z : Int} (nonzero : z ≠ 0) (small : |z| < 2 ^ 24) :
    biased (word (Float32.Model.ofInt z)) ≠ 255 ∧ value (word (Float32.Model.ofInt z)) = z := by
  have packed : word (Float32.Model.ofInt z) = UnpackedFloat.pack Format.binary32
      (UnpackedFloat.normalize Format.binary32 z 0 .positive) := rfl
  rw [abs_lt] at small
  rw [packed, UnpackedFloat.normalize]
  by_cases below : z < 0
  · have order : compare z 0 = .lt := by simpa [compare_lt_iff_lt] using below
    obtain ⟨q, e, positive, stored, fine, size, rounded⟩ :=
      round_natural .negative (by omega : 0 < (-z).toNat) (by omega)
    obtain ⟨exponent, sign, whole⟩ := stored.fields (by omega) positive .negative
    rw [order, rounded]
    constructor
    · rw [exponent]
      split <;> omega
    · have cast : (((-z).toNat : Nat) : ℚ) = -z := by
        have integer : (((-z).toNat : Nat) : Int) = -z := by omega
        exact_mod_cast integer
      rw [value, sign, whole, size, cast]
      simp [minus]
  · have order : compare z 0 = .gt := by
      have above : 0 < z := by omega
      simpa [compare_gt_iff_gt] using above
    obtain ⟨q, e, positive, stored, fine, size, rounded⟩ :=
      round_natural .positive (by omega : 0 < z.toNat) (by omega)
    obtain ⟨exponent, sign, whole⟩ := stored.fields (by omega) positive .positive
    rw [order, rounded]
    constructor
    · rw [exponent]
      split <;> omega
    · have cast : ((z.toNat : Nat) : ℚ) = z := by
        have integer : ((z.toNat : Nat) : Int) = z := by omega
        exact_mod_cast integer
      rw [value, sign, whole, size, cast]
      simp [minus]

-- The exponent field alone, as (127 + shift) << 23 builds it on an int32_t.
def power (shift : Int) : BitVec 32 := BitVec.ofInt 32 ((127 + shift) * 2 ^ 23)

def signedPower (sign : Bool) (shift : Int) : BitVec 32 := pack sign (127 + shift).toNat 0

theorem power_inside {shift : Int} (low : -127 ≤ shift) (high : shift ≤ 128) :
    power shift = signedPower false shift := by
  apply BitVec.eq_of_toNat_eq
  rw [signedPower, pack_toNat _ (by omega) (by omega), power, BitVec.toNat_ofInt, Bool.toNat_false]
  omega

-- Past the exponent field the shift carries into the sign bit.
theorem power_above {shift : Int} (low : 129 ≤ shift) (high : shift ≤ 384) :
    power shift = signedPower true (shift - 256) := by
  apply BitVec.eq_of_toNat_eq
  rw [signedPower, pack_toNat _ (by omega) (by omega), power, BitVec.toNat_ofInt, Bool.toNat_true]
  omega

theorem power_below {shift : Int} (low : -383 ≤ shift) (high : shift ≤ -128) :
    power shift = signedPower true (shift + 256) := by
  apply BitVec.eq_of_toNat_eq
  rw [signedPower, pack_toNat _ (by omega) (by omega), power, BitVec.toNat_ofInt, Bool.toNat_true]
  omega

theorem unpack_implicit {bits : BitVec 32} {shift : Int}
    (exponent : biased bits = (127 + shift).toNat) (part : fraction bits = 0)
    (low : -126 ≤ shift) (high : shift ≤ 127) :
    UnpackedFloat.unpack Format.binary32 bits =
      .finite (signOf bits) (2 ^ 23) (shift - 23) (Nat.two_pow_pos 23) := by
  have finite : biased bits ≠ 255 := by omega
  have normal : biased bits ≠ 0 := by omega
  have whole : significand bits = 2 ^ 23 := by rw [significand, if_neg normal, part, Nat.add_zero]
  have nonzero : significand bits ≠ 0 := by
    rw [whole]
    exact Nat.ne_of_gt (Nat.two_pow_pos 23)
  have field : ((max (biased bits) 1 : Nat) - 150 : Int) = shift - 23 := by omega
  rw [unpack_finite finite nonzero]
  exact finite_congr whole field _

section SignedPower

variable (sign : Bool) {shift : Int}

theorem biased_signedPower (low : -127 ≤ shift) (high : shift ≤ 128) :
    biased (signedPower sign shift) = (127 + shift).toNat :=
  biased_pack _ (by omega) (by omega)

theorem fraction_signedPower (low : -127 ≤ shift) (high : shift ≤ 128) :
    fraction (signedPower sign shift) = 0 :=
  fraction_pack _ (by omega) (by omega)

theorem negative_signedPower (low : -127 ≤ shift) (high : shift ≤ 128) :
    negative (signedPower sign shift) = sign :=
  negative_pack _ (by omega) (by omega)

theorem word_signedPower (low : -127 ≤ shift) (high : shift ≤ 128) :
    word (ofWord (signedPower sign shift)) = signedPower sign shift :=
  word_ofWord fun _ => fraction_signedPower sign low high

theorem unpack_signedPower (low : -126 ≤ shift) (high : shift ≤ 127) :
    (ofWord (signedPower sign shift)).unpack =
      .finite (signOf (signedPower sign shift)) (2 ^ 23) (shift - 23) (Nat.two_pow_pos 23) := by
  have word := word_signedPower sign (by omega : -127 ≤ shift) (by omega)
  have unpacked := unpack_implicit (biased_signedPower sign (by omega : -127 ≤ shift) (by omega))
    (fraction_signedPower sign (by omega) (by omega)) low high
  rw [← unpack_word, word]
  exact unpacked

end SignedPower

-- A float times a power of two under a sign, as the processor computes it.
def scaled (x : Float32.Model) (sign : Bool) (shift : Int) : Float32.Model :=
  x.mul (ofWord (signedPower sign shift))

section Rounded

variable (x : Float32.Model) (sign : Bool) {shift : Int} (low : -126 ≤ shift) (high : shift ≤ 127)
include low high

theorem minus_scaled :
    minus (signOf (word x) * signOf (signedPower sign shift)) = (negative (word x) != sign) := by
  rw [minus_mul, minus_signOf, minus_signOf, negative_signedPower sign (by omega) (by omega)]

theorem scaled_round (finite : biased (word x) ≠ 255) (nonzero : significand (word x) ≠ 0) :
    word (scaled x sign shift) = UnpackedFloat.pack Format.binary32
      (UnpackedFloat.roundWithAccuracy Format.binary32
        (signOf (word x) * signOf (signedPower sign shift)) (significand (word x) * 2 ^ 23)
        ((max (biased (word x)) 1 : Nat) - 150 + (shift - 23)) .exact) := by
  rw [scaled, word_mul, ← unpack_word x, unpack_finite finite nonzero,
    unpack_signedPower sign low high]
  rfl

theorem scaled_zero (zero : significand (word x) = 0) :
    word (scaled x sign shift) = pack (negative (word x) != sign) 0 0 := by
  obtain ⟨subnormal, none⟩ := zero_fields zero
  rw [scaled, word_mul, ← unpack_word x, unpack_zero subnormal none,
    unpack_signedPower sign low high]
  calc UnpackedFloat.pack Format.binary32 (.zero (signOf (word x) *
        signOf (signedPower sign shift)))
      = pack (minus (signOf (word x) * signOf (signedPower sign shift))) 0 0 := pack_zero _
    _ = pack (negative (word x) != sign) 0 0 := by rw [minus_scaled x sign low high]

end Rounded

structure Normalized (bits : BitVec 32) (shift : Int) (q : Nat) (e : Int) : Prop where
  lower : 2 ^ 23 ≤ q
  upper : q < 2 ^ 24
  whole : significand bits * 2 ^ 23 = q * 2 ^ (significand bits).log2
  exponent : ((max (biased bits) 1 : Nat) - 150 : Int) + (shift - 23) = e - (significand bits).log2
  size : magnitude bits * 2 ^ shift = q * 2 ^ e

theorem normalized {bits : BitVec 32} (nonzero : significand bits ≠ 0) (shift : Int) :
    ∃ q e, Normalized bits shift q e := by
  have log : (significand bits).log2 ≤ 23 := log2_lt (significand_lt bits)
  have lower := Nat.log2_self_le nonzero
  have upper := @Nat.lt_log2_self (significand bits)
  have least : 2 ^ (significand bits).log2 * 2 ^ (23 - (significand bits).log2) = 2 ^ 23 := by
    rw [← pow_add]
    congr 1
    omega
  have most : 2 ^ ((significand bits).log2 + 1) * 2 ^ (23 - (significand bits).log2) = 2 ^ 24 := by
    rw [← pow_add]
    congr 1
    omega
  refine ⟨significand bits * 2 ^ (23 - (significand bits).log2),
    (max (biased bits) 1 : Nat) - 150 + shift - (23 - (significand bits).log2 : Nat), ?_⟩
  constructor
  · rw [← least]
    exact Nat.mul_le_mul_right _ lower
  · rw [← most]
    exact Nat.mul_lt_mul_of_pos_right upper (Nat.two_pow_pos _)
  · rw [Nat.mul_assoc, Nat.mul_comm (2 ^ (23 - (significand bits).log2)), least]
  · omega
  · have cancel : (2 : ℚ) ^ (23 - (significand bits).log2) *
        2 ^ (-((23 - (significand bits).log2 : Nat) : Int)) = 1 := by
      rw [← zpow_natCast, ← pow_split]
      simp
    rw [sub_eq_add_neg _ ((23 - (significand bits).log2 : Nat) : Int), pow_split, pow_split,
      magnitude]
    generalize ((max (biased bits) 1 : Nat) : Int) - 150 = base
    calc (significand bits : ℚ) * 2 ^ base * 2 ^ shift
        = significand bits * (2 ^ base * 2 ^ shift) *
            (2 ^ (23 - (significand bits).log2) *
              2 ^ (-((23 - (significand bits).log2 : Nat) : Int))) := by
          rw [cancel]
          ring
      _ = _ := by
          push_cast
          ring

theorem normalized_nonzero {bits : BitVec 32} {shift : Int} {bound : ℚ} (positive : 0 < bound)
    (above : bound ≤ magnitude bits * 2 ^ shift) : significand bits ≠ 0 := by
  intro zero
  rw [magnitude, zero] at above
  simp only [Nat.cast_zero, zero_mul] at above
  linarith

section Normalized

variable {bits : BitVec 32} {shift : Int} {q : Nat} {e : Int} (parts : Normalized bits shift q e)
include parts

theorem Normalized.positive : 0 < q := by
  have lower := parts.lower
  omega

theorem Normalized.size_lower : (2 : ℚ) ^ ((23 : Int) + e) ≤ magnitude bits * 2 ^ shift := by
  have lower : (2 : ℚ) ^ (23 : Int) ≤ q := by exact_mod_cast parts.lower
  have scale := pow_pos' e
  rw [parts.size, pow_split]
  gcongr

theorem Normalized.size_upper : magnitude bits * 2 ^ shift < (2 : ℚ) ^ ((24 : Int) + e) := by
  have upper : (q : ℚ) < 2 ^ (24 : Int) := by exact_mod_cast parts.upper
  have scale := pow_pos' e
  rw [parts.size, pow_split]
  gcongr

theorem Normalized.stored (least : -149 ≤ e) : Stored q e :=
  { wide := parts.upper, least := least, canonical := .inl parts.lower }

end Normalized

theorem exponent_lt {e k : Int} (below : (2 : ℚ) ^ e < 2 ^ k) : e < k :=
  (zpow_lt_zpow_iff_right₀ (by norm_num : (1 : ℚ) < 2)).mp below

section Scaled

variable (x : Float32.Model) (sign : Bool) {shift : Int} (low : -126 ≤ shift) (high : shift ≤ 127)
  (finite : biased (word x) ≠ 255)
include low high finite

theorem scaled_stored (nonzero : significand (word x) ≠ 0) {q : Nat} {e : Int}
    (parts : Normalized (word x) shift q e) (least : -149 ≤ e) :
    word (scaled x sign shift) = UnpackedFloat.pack Format.binary32
      (.finite (signOf (word x) * signOf (signedPower sign shift)) q e parts.positive) := by
  rw [scaled_round x sign low high finite nonzero, parts.whole, parts.exponent,
    round_stored _ (parts.stored least)]

theorem scaled_normal (above : 2 ^ (-126 : Int) ≤ magnitude (word x) * 2 ^ shift)
    (below : magnitude (word x) * 2 ^ shift < 2 ^ (128 : Int)) :
    biased (word (scaled x sign shift)) ≠ 0 ∧ biased (word (scaled x sign shift)) ≠ 255 ∧
      negative (word (scaled x sign shift)) = (negative (word x) != sign) ∧
      magnitude (word (scaled x sign shift)) = magnitude (word x) * 2 ^ shift := by
  have nonzero := normalized_nonzero (pow_pos' _) above
  obtain ⟨q, e, parts⟩ := normalized nonzero shift
  have least := exponent_lt (lt_of_le_of_lt above parts.size_upper)
  have most := exponent_lt (lt_of_le_of_lt parts.size_lower below)
  obtain ⟨exponent, minus, size⟩ := (parts.stored (by omega)).fields (by omega) parts.positive
    (signOf (word x) * signOf (signedPower sign shift))
  rw [if_pos parts.lower] at exponent
  rw [scaled_stored x sign low high finite nonzero parts (by omega)]
  refine ⟨by omega, by omega, ?_, ?_⟩
  · rw [minus, minus_scaled x sign low high]
  · rw [size, parts.size]

theorem scaled_value (above : 2 ^ (-126 : Int) ≤ magnitude (word x) * 2 ^ shift)
    (below : magnitude (word x) * 2 ^ shift < 2 ^ (128 : Int)) :
    value (word (scaled x sign shift)) =
      if sign then -(value (word x) * 2 ^ shift) else value (word x) * 2 ^ shift := by
  obtain ⟨_, _, minus, size⟩ := scaled_normal x sign low high finite above below
  rw [value, value, minus, size]
  cases negative (word x) <;> cases sign <;> simp

theorem scaled_overflow (above : 2 ^ (128 : Int) ≤ magnitude (word x) * 2 ^ shift) :
    word (scaled x sign shift) = pack (negative (word x) != sign) 255 0 := by
  have nonzero := normalized_nonzero (pow_pos' _) above
  obtain ⟨q, e, parts⟩ := normalized nonzero shift
  have large := exponent_lt (lt_of_le_of_lt above parts.size_upper)
  rw [scaled_stored x sign low high finite nonzero parts (by omega),
    pack_overflow _ _ (by omega), minus_scaled x sign low high]

theorem scaled_tiny (tiny : magnitude (word x) * 2 ^ shift < 2 ^ (-126 : Int)) :
    biased (word (scaled x sign shift)) ≠ 255 ∧
      magnitude (word (scaled x sign shift)) ≤ 2 ^ (-126 : Int) := by
  have none (flag : Bool) :
      biased (pack flag 0 0) ≠ 255 ∧ magnitude (pack flag 0 0) ≤ 2 ^ (-126 : Int) := by
    rw [magnitude, significand, biased_pack _ (by decide) (by decide),
      fraction_pack _ (by decide) (by decide)]
    norm_num
  by_cases zero : significand (word x) = 0
  · rw [scaled_zero x sign low high zero]
    exact none _
  · obtain ⟨q, e, parts⟩ := normalized zero shift
    have small := exponent_lt (lt_of_le_of_lt parts.size_lower tiny)
    have logq : q.log2 ≤ 23 := log2_lt parts.upper
    have logs := log2_shifted parts.positive (significand (word x)).log2
    rw [scaled_round x sign low high finite zero, parts.whole, parts.exponent]
    rcases round_tiny (signOf (word x) * signOf (signedPower sign shift))
      (m := q * 2 ^ (significand (word x)).log2) (e := e - (significand (word x)).log2)
      (by omega) (by omega) with cleared | ⟨r, nonzero, bound, kept⟩
    · rw [cleared, pack_zero]
      exact none _
    · have stored : Stored r (-149) :=
        { wide := by omega, least := le_rfl, canonical := .inr rfl }
      obtain ⟨exponent, _, size⟩ := stored.fields (by decide) nonzero
        (signOf (word x) * signOf (signedPower sign shift))
      have part : (r : ℚ) ≤ 2 ^ 23 := by exact_mod_cast bound
      rw [kept, exponent, size]
      constructor
      · split <;> decide
      · calc (r : ℚ) * 2 ^ (-149 : Int) ≤ 2 ^ 23 * 2 ^ (-149 : Int) := by gcongr
          _ = 2 ^ (-126 : Int) := by norm_num

end Scaled

end Binary32
