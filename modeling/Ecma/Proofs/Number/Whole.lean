import Ecma.Number.Word
import Ecma.Proofs.Number.Comparison

set_option autoImplicit false

/-!
Whole numbers of less than 53 bits are numbers without loss: taken apart they are what they were made from.
-/

namespace Ecma.Number

open Float.Model UnpackedFloat

/-! Rounding what needs none. -/

-- Bits that are zero leave no trace when they are shifted out.
theorem shifted_back (m k : Nat) :
    (⟨m <<< k, false, false⟩ : ExtendedMantissa) >>> k = ⟨m, false, false⟩ := by
  induction k generalizing m with
  | zero => rfl
  | succ k hyp =>
    change ExtendedMantissa.shiftRightOne ((⟨m <<< (k + 1), false, false⟩ : ExtendedMantissa) >>> k) = _
    have doubled : m <<< (k + 1) = (2 * m) <<< k := by
      rw [Nat.shiftLeft_succ, Nat.shiftLeft_eq, Nat.shiftLeft_eq]
      ring
    rw [doubled, hyp]
    simp [ExtendedMantissa.shiftRightOne]

theorem log_shifted (m k : Nat) (pos : 0 < m) : (m <<< k).log2 = m.log2 + k := by
  have scale : 0 < 2 ^ k := Nat.two_pow_pos k
  obtain ⟨lower, upper⟩ := (Nat.log2_eq_iff (Nat.ne_of_gt pos)).mp rfl
  rw [Nat.shiftLeft_eq, Nat.log2_eq_iff (Nat.mul_ne_zero (Nat.ne_of_gt pos) (Nat.ne_of_gt scale))]
  rw [Nat.pow_add, show m.log2 + k + 1 = m.log2 + 1 + k by omega, Nat.pow_add 2 (m.log2 + 1)]
  exact ⟨Nat.mul_le_mul_right _ lower, Nat.mul_lt_mul_of_pos_right upper scale⟩

-- A full mantissa is kept, whatever zeros follow it.
theorem round_exact (sign : Sign) (m k : Nat) (e : Int) (pos : 0 < m) (full : 2 ^ 52 ≤ m) (bounded : m < 2 ^ 53)
    (least : -1074 ≤ e) :
    roundWithAccuracy Format.binary64 sign (m <<< k) (e - k) .exact = .finite sign m e pos := by
  have log : m.log2 = 52 := (Nat.log2_eq_iff (Nat.ne_of_gt pos)).mpr ⟨full, bounded⟩
  have target (k : Nat) : Format.binary64.targetExponent (totalExponent (m <<< k) (e - k)) = e := by
    rw [totalExponent, log_shifted m k pos, log, Format.targetExponent]
    change max (((52 + k : Nat) : Int) + 1 + (e - k) - 53) (-1074) = e
    omega
  have shifted (k : Nat) :
      shiftToTargetExponent Format.binary64 (m <<< k) (e - k) .exact = (⟨m, false, false⟩, e) := by
    rw [shiftToTargetExponent, target, shiftToExponent]
    have amount : (e - (e - k)).toNat = k := by
      omega
    simp only [amount, ExtendedMantissa.ofMantissaAndAccuracy, shifted_back, Prod.mk.injEq, true_and]
    omega
  have again := shifted 0
  rw [Nat.shiftLeft_zero, Int.ofNat_zero, Int.sub_zero] at again
  have nonzero : ¬ m = 0 := Nat.ne_of_gt pos
  have rounded : ExtendedMantissa.roundedMantissa ⟨m, false, false⟩ = m := by
    simp only [ExtendedMantissa.roundedMantissa, ExtendedMantissa.accuracy, Accuracy.roundToNearestEven]
  delta roundWithAccuracy
  dsimp only
  rw [shifted]
  dsimp only
  rw [rounded, again]
  exact dif_neg nonzero

/-! Packing what fits. -/

theorem sign_kept (sign : Sign) : Sign.ofBitVec sign.toBitVec = sign := by
  cases sign <;> rfl

theorem sign_packed (sign : Sign) (exponent : BitVec 11) (mantissa : BitVec 52) :
    signOf (packComponents Format.binary64 sign exponent mantissa) = sign.toBitVec := by
  have lead : (sign.toBitVec ++ exponent ++ mantissa).getLsbD 63 = sign.toBitVec.getLsbD 0 := by
    rw [BitVec.getLsbD_append, BitVec.getLsbD_append]
    rfl
  apply BitVec.eq_of_getLsbD_eq
  intro i small
  obtain rfl : i = 0 := Nat.lt_one_iff.mp small
  rw [signOf]
  delta unpackSign packComponents
  simp only [BitVec.getLsbD_cast, BitVec.getLsbD_extractLsb]
  exact lead

section

variable (sign : Sign) (m : Nat) (e : Int) (pos : 0 < m) (full : 2 ^ 52 ≤ m) (bounded : m < 2 ^ 53)
  (least : -1074 ≤ e) (most : e ≤ 971)

theorem pack_full (log : m.log2 = 52) (most : e ≤ 971) :
    UnpackedFloat.pack Format.binary64 (.finite sign m e pos) = packComponents Format.binary64 sign
      (BitVec.ofNat _ (e + 1075).toNat) (BitVec.ofNat _ m) := by
  have exponent : e + (Format.exponentBias Format.binary64 : Int) + (52 : Nat) = e + 1075 := by
    have bias : Format.exponentBias Format.binary64 = 1023 := by
      decide
    omega
  have width : Format.mantissaBits Format.binary64 = 53 := by
    rfl
  delta UnpackedFloat.pack
  dsimp only
  rw [exponent, width, log, if_pos rfl, if_neg]
  omega

-- A number with an exponent in the middle of the range is told by its parts.
theorem unpack_full (b : BitVec 64) (signs : signOf b = sign.toBitVec)
    (exponents : ((exponentOf b).toNat : Int) = e + 1075) (mantissas : 2 ^ 52 + (mantissaOf b).toNat = m)
    (least : -1074 ≤ e) (most : e ≤ 971) : UnpackedFloat.unpack Format.binary64 b = .finite sign m e pos := by
  have middle : exponentOf b ≠ -1#11 ∧ exponentOf b ≠ 0#11 := by
    refine ⟨fun same => ?_, fun same => ?_⟩
    · rw [same] at exponents
      have top : (-1#11).toNat = 2047 := by
        decide
      omega
    · rw [same] at exponents
      have bottom : (0#11).toNat = 0 := by
        decide
      omega
  have parts := unpacks b
  generalize UnpackedFloat.unpack Format.binary64 b = unpacked at parts ⊢
  cases unpacked with
  | infinity s => exact absurd parts.1 middle.1
  | notANumber => exact absurd parts.1 middle.1
  | zero s => exact absurd parts.1 middle.2
  | finite s m' e' pos' =>
    obtain ⟨rfl, none | ⟨exponent, mantissa⟩⟩ := parts
    · exact absurd none.1 middle.2
    · obtain rfl : e' = e := by
        omega
      obtain rfl : m' = m := by
        omega
      rw [signs, sign_kept]

include full bounded least most in
theorem unpack_pack : (Float.Model.pack (.finite sign m e pos)).unpack = .finite sign m e pos := by
  have packed := pack_full sign m e pos ((Nat.log2_eq_iff (Nat.ne_of_gt pos)).mpr ⟨full, bounded⟩) most
  change UnpackedFloat.unpack Format.binary64 (UnpackedFloat.pack Format.binary64 (.finite sign m e pos)) = _
  rw [packed]
  refine unpack_full sign m e pos _ ?_ ?_ ?_ least most
  · exact sign_packed _ _ _
  · rw [exponentOf, unpackExponent_packComponents, BitVec.toNat_ofNat]
    omega
  · rw [mantissaOf, unpackMantissa_packComponents, BitVec.toNat_ofNat]
    omega

end

/-! Whole numbers. -/

section

variable (n : Nat)

theorem whole_full (pos : 0 < n) (small : n < 2 ^ 53) :
    2 ^ 52 ≤ n <<< (52 - n.log2) ∧ n <<< (52 - n.log2) < 2 ^ 53 := by
  obtain ⟨lower, upper⟩ := (Nat.log2_eq_iff (Nat.ne_of_gt pos)).mp rfl
  have short : n.log2 < 53 := (Nat.log2_lt (Nat.ne_of_gt pos)).mpr small
  have scale : 0 < 2 ^ (52 - n.log2) := Nat.two_pow_pos _
  rw [Nat.shiftLeft_eq]
  constructor
  · have least := Nat.mul_le_mul_right (2 ^ (52 - n.log2)) lower
    rwa [← Nat.pow_add, Nat.add_sub_cancel' (Nat.le_of_lt_succ short)] at least
  · have most := Nat.mul_lt_mul_of_pos_right upper scale
    rwa [← Nat.pow_add, show n.log2 + 1 + (52 - n.log2) = 53 by omega] at most

-- However far a whole number is shifted, its leading bits make the mantissa.
theorem round_shifted (sign : Sign) (t : Nat) (pos : 0 < n) (small : n < 2 ^ 53) (there : 0 < n <<< (52 - n.log2)) :
    UnpackedFloat.round Format.binary64 sign (n <<< t) (-t) =
      .finite sign (n <<< (52 - n.log2)) (n.log2 - 52) there := by
  have short : n.log2 < 53 := (Nat.log2_lt (Nat.ne_of_gt pos)).mpr small
  obtain ⟨full, bounded⟩ := whole_full n pos small
  have target : Format.binary64.targetExponent (totalExponent (n <<< t) (-t)) = n.log2 - 52 := by
    rw [totalExponent, log_shifted n t pos, Format.targetExponent]
    change max (((n.log2 + t : Nat) : Int) + 1 + -t - 53) (-1074) = _
    omega
  have kept := round_exact sign _ (t - (52 - n.log2)) (n.log2 - 52) there full bounded (by omega)
  have amount : (-(t : Int) - ((n.log2 : Int) - 52)).toNat = 52 - n.log2 - t := by
    omega
  have mantissa : n <<< t <<< (52 - n.log2 - t) = n <<< (52 - n.log2) <<< (t - (52 - n.log2)) := by
    rw [← Nat.shiftLeft_add, ← Nat.shiftLeft_add]
    congr 1
    omega
  have exponent : -(t : Int) - (52 - n.log2 - t : Nat) = n.log2 - 52 - (t - (52 - n.log2) : Nat) := by
    omega
  rw [UnpackedFloat.round, target, decreaseExponent, amount, exponent, mantissa]
  exact kept

theorem unpack_word (pos : 0 < n) (small : n < 2 ^ 53) (there : 0 < n <<< (52 - n.log2)) :
    n.toUInt64.toFloat.toModel.unpack = .finite .positive (n <<< (52 - n.log2)) (n.log2 - 52) there := by
  have short : n.log2 < 53 := (Nat.log2_lt (Nat.ne_of_gt pos)).mpr small
  obtain ⟨full, bounded⟩ := whole_full n pos small
  have same : n.toUInt64.toNat = n := by
    exact UInt64.toNat_ofNat_of_lt' (Nat.lt_trans small (by decide))
  have rounded : UnpackedFloat.ofUInt64 Format.binary64 n.toUInt64 =
      .finite .positive (n <<< (52 - n.log2)) (n.log2 - 52) there := by
    have greater : compare (n : Int) 0 = .gt := compare_gt_iff_gt.mpr (by omega)
    rw [UnpackedFloat.ofUInt64, same, UnpackedFloat.ofNat, UnpackedFloat.ofInt, UnpackedFloat.normalize, greater]
    exact round_shifted n .positive 0 pos small there
  change (Float.Model.pack (UnpackedFloat.ofUInt64 Format.binary64 n.toUInt64)).unpack = _
  rw [rounded]
  exact unpack_pack _ _ _ _ full bounded (by omega) (by omega)

-- A whole number is made as a word, times ten to the power of zero.
theorem whole_product (small : n < 2 ^ 53) :
    Float.ofNat n = n.toUInt64.toFloat * Float.ofBits 4607182418800017408 := by
  change Float.ofScientific n false 0 = _
  rw [Float.ofScientific, dif_pos ⟨small, Nat.zero_le 22⟩]
  rfl

theorem one_parts : (Float.ofBits 4607182418800017408).toModel.unpack =
    .finite .positive (2 ^ 52) (-52) (by decide) := by
  rfl

theorem whole_parts (pos : 0 < n) (small : n < 2 ^ 53) (there : 0 < n <<< (52 - n.log2)) :
    (Float.ofNat n).toModel.unpack = .finite .positive (n <<< (52 - n.log2)) (n.log2 - 52) there := by
  have short : n.log2 < 53 := (Nat.log2_lt (Nat.ne_of_gt pos)).mpr small
  obtain ⟨full, bounded⟩ := whole_full n pos small
  have rounded : UnpackedFloat.mul Format.binary64 n.toUInt64.toFloat.toModel.unpack
      (Float.ofBits 4607182418800017408).toModel.unpack =
        .finite .positive (n <<< (52 - n.log2)) (n.log2 - 52) there := by
    rw [unpack_word n pos small there, one_parts]
    have kept := round_exact .positive _ 52 (n.log2 - 52) there full bounded (by omega)
    rwa [Nat.shiftLeft_eq (n <<< (52 - n.log2)) 52] at kept
  rw [whole_product n small]
  change (Float.Model.pack (UnpackedFloat.mul Format.binary64 _ _)).unpack = _
  rw [rounded]
  exact unpack_pack _ _ _ _ full bounded (by omega) (by omega)

end

theorem zero_parts : (Float.ofNat 0).toModel.unpack = .zero .positive := by
  rw [whole_product 0 (by decide)]
  rfl

theorem zero_whole : (0.0 : Float) = Float.ofNat 0 := by
  have parts : (0.0 : Float).toModel.unpack = .zero .positive := by
    rfl
  exact unpack_injective _ _ (parts.trans zero_parts.symm)

-- A whole number has no sign, and it is its own integer part.
theorem scaled_whole (n : Nat) (small : n < 2 ^ 53) :
    ∃ s, Scaled.ofFloat? (Float.ofNat n) = some s ∧ s.negative = false ∧ s.whole = n := by
  rcases Nat.eq_zero_or_pos n with rfl | pos
  · refine ⟨⟨false, 0, 0⟩, ?_, rfl, rfl⟩
    rw [Scaled.ofFloat?, zero_parts]
    rfl
  · have there : 0 < n <<< (52 - n.log2) := by
      have full := (whole_full n pos small).1
      omega
    have short : n.log2 < 53 := (Nat.log2_lt (Nat.ne_of_gt pos)).mpr small
    refine ⟨⟨false, n <<< (52 - n.log2), n.log2 - 52⟩, ?_, rfl, ?_⟩
    · rw [Scaled.ofFloat?, whole_parts n pos small there]
      rfl
    · rw [Scaled.whole]
      dsimp only
      split
      · next fraction =>
        have places : (-((n.log2 : Int) - 52)).toNat = 52 - n.log2 := by
          omega
        rw [places, Nat.shiftLeft_shiftRight]
      · next none =>
        have last : n.log2 = 52 := by
          omega
        rw [last]
        rfl

-- A whole number lies in every range that reaches so far.
theorem clamp_whole (most n : Nat) (small : n < 2 ^ 53) (within : n ≤ most) : clamp most (Float.ofNat n) = n := by
  obtain ⟨s, parts, positive, whole⟩ := scaled_whole n small
  rw [clamp, parts]
  dsimp only
  rw [positive, whole, if_neg Bool.false_ne_true]
  exact Nat.min_eq_left within

theorem word_whole (n : Nat) (fits : n < wordCount) : toUint32 (Float.ofNat n) = n := by
  obtain ⟨s, parts, positive, whole⟩ := scaled_whole n (Nat.lt_of_lt_of_le fits (by decide))
  rw [toUint32, parts]
  dsimp only
  rw [Scaled.toInt, positive, if_neg Bool.false_ne_true, whole, ← Int.natCast_mod, Int.toNat_natCast]
  exact Nat.mod_eq_of_lt fits

theorem word_zero (x : Float) (zero : (x == 0.0) = true) : toUint32 x = 0 := by
  obtain ⟨s, parts⟩ := (zero_iff x).mp zero
  rw [toUint32, Scaled.ofFloat?, parts]
  cases s <;> rfl

theorem word_fits (x : Float) : toUint32 x < wordCount := by
  rw [toUint32]
  split
  · decide
  · next s _ =>
    have positive : (0 : Int) < wordCount := by
      decide
    have less := Int.emod_lt_of_pos s.toInt positive
    have least := Int.emod_nonneg s.toInt (Int.ne_of_gt positive)
    omega

-- A word is recovered from every number that equals it.
theorem word_of_equal (x : Float) (n : Nat) (fits : n < wordCount) (equal : (Float.ofNat n == x) = true) :
    toUint32 x = n := by
  obtain ⟨_, _, rfl | ⟨zero, zero'⟩⟩ := (equal_iff _ x).mp equal
  · exact word_whole n fits
  · rw [word_zero x zero']
    exact (word_zero _ zero).symm.trans (word_whole n fits)

section

variable (m n : Nat) (small : m < 2 ^ 53) (small' : n < 2 ^ 53)
include small small'

theorem whole_injective (same : Float.ofNat m = Float.ofNat n) : m = n := by
  have clamped := congrArg (clamp (max m n)) same
  rwa [clamp_whole _ m small (Nat.le_max_left m n), clamp_whole _ n small' (Nat.le_max_right m n)] at clamped

end

end Ecma.Number
