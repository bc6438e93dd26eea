import Mathlib.Data.Rat.Floor
import Ecma.Proofs.Number.Shortest

set_option autoImplicit false

/-!
The exact values of numbers. A finite number is a rational number, and numbers are in the order of their values. An
operation that rounds gives the value it should have whenever that is the value of a number; truncation and remainders
do not round.
-/

namespace Ecma.Number

open Float.Model UnpackedFloat

/-- One for the positive sign and minus one for the negative one. -/
def direction : Sign → ℚ
  | .positive => 1
  | .negative => -1

/-- The rational number that a number taken apart is; an infinity and NaN are none. -/
def rational? : UnpackedFloat → Option ℚ
  | .zero _ => some 0
  | .finite sign m e _ => some (direction sign * (m * 2 ^ e))
  | _ => none

/-- The exact value of a finite number. -/
def value? (x : Float) : Option ℚ :=
  rational? x.toModel.unpack

theorem finite_value (x : Float) (finite : x.isFinite = true) : ∃ q, value? x = some q := by
  change x.toModel.unpack.isFinite = true at finite
  rw [value?]
  generalize x.toModel.unpack = parts at finite
  cases parts with
  | infinity sign => cases finite
  | notANumber => cases finite
  | zero sign => exact ⟨_, rfl⟩
  | finite sign m e pos => exact ⟨_, rfl⟩

theorem value_cases (x : Float) (q : ℚ) (value : value? x = some q) :
    (∃ sign, x.toModel.unpack = .zero sign) ∧ q = 0 ∨
      ∃ sign m e, ∃ canonical : Canonical m e, x.toModel.unpack = .finite sign m e canonical.positive ∧
        q = direction sign * (m * 2 ^ e) := by
  rw [value?] at value
  cases parts : x.toModel.unpack with
  | infinity sign =>
    rw [parts] at value
    cases value
  | notANumber =>
    rw [parts] at value
    cases value
  | zero sign =>
    rw [parts] at value
    exact .inl ⟨⟨sign, rfl⟩, (Option.some.inj value).symm⟩
  | finite sign m e pos =>
    rw [parts] at value
    exact .inr ⟨sign, m, e, unpack_canonical x sign m e pos parts, rfl, (Option.some.inj value).symm⟩

theorem value_number (x : Float) (q : ℚ) (value : value? x = some q) : x.isNaN = false := by
  change x.toModel.unpack.isNaN = false
  obtain ⟨⟨sign, parts⟩, _⟩ | ⟨sign, m, e, canonical, parts, _⟩ := value_cases x q value <;> rw [parts] <;> rfl

theorem zero_value (x : Float) (sign : Sign) (parts : x.toModel.unpack = .zero sign) : value? x = some 0 := by
  rw [value?, parts]
  rfl

theorem parts_value (x : Float) (sign : Sign) (m : Nat) (e : Int) (pos : 0 < m)
    (parts : x.toModel.unpack = .finite sign m e pos) : value? x = some (direction sign * (m * 2 ^ e)) := by
  rw [value?, parts]
  rfl

/-! Rounding what needs none. -/

-- A sign and a positive magnitude are told by their product.
theorem directed_same (sign sign' : Sign) (a b : ℚ) (above : 0 < a) (above' : 0 < b)
    (same : direction sign * a = direction sign' * b) : sign = sign' ∧ a = b := by
  cases sign <;> cases sign' <;> simp only [direction, neg_mul, one_mul] at same
  · exact ⟨rfl, neg_injective same⟩
  · linarith
  · linarith
  · exact ⟨rfl, same⟩

theorem directed_nonzero (sign : Sign) (a : ℚ) (above : 0 < a) : direction sign * a ≠ 0 := by
  cases sign <;> simp only [direction, neg_mul, one_mul] <;> linarith

section

variable (m : Nat) (e : Int)

theorem magnitude_pos (pos : 0 < m) : (0 : ℚ) < m * 2 ^ e :=
  mul_pos (Nat.cast_pos.mpr pos) (two_power_pos e)

theorem shifted_value (k : Nat) : ((m <<< k : Nat) : ℚ) * 2 ^ (e - k) = m * 2 ^ e := by
  rw [Nat.shiftLeft_eq, Nat.cast_mul, Nat.cast_pow, Nat.cast_two, mul_assoc, ← zpow_natCast, ← two_power_add,
    add_sub_cancel]

-- The value of a canonical number is rounded to its parts, however it is written.
theorem round_canonical (sign : Sign) (m' : Nat) (e' : Int) (canonical : Canonical m' e')
    (same : (m : ℚ) * 2 ^ e = m' * 2 ^ e') :
    UnpackedFloat.round Format.binary64 sign m e = .finite sign m' e' canonical.positive := by
  have above : 0 < m := by
    have above := magnitude_pos m' e' canonical.positive
    rw [← same] at above
    exact Nat.cast_pos.mp (pos_of_mul_pos_left above (le_of_lt (two_power_pos e)))
  have rounds : Rounds ⟨false, m', e'⟩ (m * 2 ^ e) := by
    rw [same]
    obtain ⟨low, high⟩ := value_between ⟨false, m', e'⟩
    exact ⟨.inl low, .inl high⟩
  rw [UnpackedFloat.round]
  generalize target : Format.binary64.targetExponent (totalExponent m e) = t
  rw [decreaseExponent]
  dsimp only
  refine round_within ⟨false, m', e'⟩ (m * 2 ^ e) canonical rounds sign _ _ .exact ?_ ?_
  · change _ / _ = (((m <<< (e - t).toNat : Nat)) : ℚ)
    rw [← shifted_value m e (e - t).toNat, mul_div_cancel_right₀ _ (ne_of_gt (two_power_pos _))]
  · have total : totalExponent (m <<< (e - t).toNat) (e - (e - t).toNat) = totalExponent m e := by
      rw [totalExponent, totalExponent, log_shifted m _ above]
      omega
    rw [total, target]
    omega

end

section

variable (z : Float)

theorem round_represented (sign : Sign) (m : Nat) (e : Int) (pos : 0 < m)
    (value : value? z = some (direction sign * (m * 2 ^ e))) :
    Float.ofModel (Float.Model.pack (UnpackedFloat.round Format.binary64 sign m e)) = z := by
  have above := magnitude_pos m e pos
  obtain ⟨_, none⟩ | ⟨sign', m', e', canonical, parts, same⟩ := value_cases z _ value
  · exact absurd none (directed_nonzero sign _ above)
  · obtain ⟨rfl, equal⟩ := directed_same sign sign' _ _ above (magnitude_pos m' e' canonical.positive) same
    refine unpack_injective _ z ?_
    rw [parts, round_canonical m e sign m' e' canonical equal]
    exact pack_canonical sign m' e' canonical.positive canonical

theorem packed_zero (sign : Sign) : value? (Float.ofModel (Float.Model.pack (.zero sign))) = some 0 := by
  cases sign <;> exact zero_value _ _ rfl

theorem normalize_represented (n : Int) (e : Int) (sign : Sign) (value : value? z = some ((n : ℚ) * 2 ^ e)) :
    value? (Float.ofModel (Float.Model.pack (UnpackedFloat.normalize Format.binary64 n e sign))) =
      some ((n : ℚ) * 2 ^ e) := by
  rw [UnpackedFloat.normalize]
  rcases lt_trichotomy n 0 with less | rfl | more
  · rw [compare_lt_iff_lt.mpr less]
    have magnitude : ((-n).toNat : ℚ) = -n := by
      exact_mod_cast Int.toNat_of_nonneg (show 0 ≤ -n by omega)
    have directed : (n : ℚ) * 2 ^ e = direction .negative * ((-n).toNat * 2 ^ e) := by
      rw [magnitude, direction]
      ring
    dsimp only
    rw [round_represented z .negative (-n).toNat e (by omega) (by rw [value, directed]), value]
  · rw [compare_eq_iff_eq.mpr rfl, Int.cast_zero, zero_mul]
    exact packed_zero sign
  · rw [compare_gt_iff_gt.mpr more]
    have magnitude : (n.toNat : ℚ) = n := by
      exact_mod_cast Int.toNat_of_nonneg (le_of_lt more)
    have directed : (n : ℚ) * 2 ^ e = direction .positive * (n.toNat * 2 ^ e) := by
      rw [magnitude, direction, one_mul]
    dsimp only
    rw [round_represented z .positive n.toNat e (by omega) (by rw [value, directed]), value]

end

theorem packed_value (sign : Sign) (m : Nat) (e : Int) (canonical : Canonical m e) :
    value? (Float.ofModel (Float.Model.pack (.finite sign m e canonical.positive))) =
      some (direction sign * (m * 2 ^ e)) :=
  parts_value _ _ _ _ _ (pack_canonical sign m e canonical.positive canonical)

/-! Order. -/

theorem canonical_above (m m' : Nat) (e e' : Int) (left : Canonical m e) (right : Canonical m' e') (below : e < e') :
    (m : ℚ) * 2 ^ e < m' * 2 ^ e' := by
  have full : (2 : ℚ) ^ 52 ≤ m' := by
    have least := left.least
    exact_mod_cast right.full.resolve_right (by omega)
  have bounded : (m : ℚ) < 2 ^ 53 := by
    exact_mod_cast left.bounded
  calc (m : ℚ) * 2 ^ e < 2 ^ 53 * 2 ^ e := mul_lt_mul_of_pos_right bounded (two_power_pos e)
    _ = 2 ^ 52 * 2 ^ (e + 1) := by
      rw [zpow_add_one₀ two_ne_zero]
      ring
    _ ≤ m' * 2 ^ e' :=
      mul_le_mul full (zpow_le_zpow_right₀ one_le_two (by omega)) (le_of_lt (two_power_pos _)) (Nat.cast_nonneg m')

-- With canonical mantissas the greater exponent makes the greater number.
theorem canonical_less (m m' : Nat) (e e' : Int) (left : Canonical m e) (right : Canonical m' e') :
    (compare e e').then (compare m m') = .lt ↔ (m : ℚ) * 2 ^ e < m' * 2 ^ e' := by
  rw [Ordering.then_eq_lt, compare_lt_iff_lt, compare_lt_iff_lt, compare_eq_iff_eq]
  rcases lt_trichotomy e e' with below | rfl | above
  · exact iff_of_true (.inl below) (canonical_above m m' e e' left right below)
  · rw [mul_lt_mul_iff_left₀ (two_power_pos e), Nat.cast_lt]
    simp
  · have more := canonical_above m' m e' e right left above
    exact iff_of_false (by omega) (not_lt_of_gt more)

theorem value_less (x y : Float) (p q : ℚ) (left : value? x = some p) (right : value? y = some q) : x < y ↔ p < q := by
  rw [less_iff, beq_iff_eq]
  obtain ⟨⟨sign, parts⟩, rfl⟩ | ⟨sign, m, e, canonical, parts, rfl⟩ := value_cases x p left <;>
    obtain ⟨⟨sign', parts'⟩, rfl⟩ | ⟨sign', m', e', canonical', parts', rfl⟩ := value_cases y q right <;>
    rw [parts, parts']
  · exact iff_of_false nofun (lt_irrefl 0)
  · have above := magnitude_pos m' e' canonical'.positive
    cases sign' with
    | positive => exact iff_of_true rfl (by rwa [direction, one_mul])
    | negative => exact iff_of_false nofun (by rw [direction, neg_one_mul]; linarith)
  · have above := magnitude_pos m e canonical.positive
    cases sign with
    | positive => exact iff_of_false nofun (by rw [direction, one_mul]; linarith)
    | negative => exact iff_of_true rfl (by rw [direction, neg_one_mul]; linarith)
  · have above := magnitude_pos m e canonical.positive
    have above' := magnitude_pos m' e' canonical'.positive
    have kept (a : ℚ) : direction .positive * a = a := one_mul a
    have negated (a : ℚ) : direction .negative * a = -a := neg_one_mul a
    cases sign <;> cases sign'
    · -- of two negative numbers the one with the greater magnitude is less
      rw [negated, negated, neg_lt_neg_iff]
      change some (Ordering.swap _) = some _ ↔ _
      rw [Option.some_inj, swap_lexicographic, canonical_less m' m e' e canonical' canonical]
    · exact iff_of_true rfl (by rw [negated, kept]; linarith)
    · exact iff_of_false nofun (by rw [negated, kept]; linarith)
    · rw [kept, kept]
      change some _ = some _ ↔ _
      rw [Option.some_inj, canonical_less m m' e e' canonical canonical']

/-! Sums. -/

-- Down to a lesser exponent a mantissa is shifted without loss.
theorem aligned_value (sign : Sign) (m : Nat) (e t : Int) (less : t ≤ e) :
    ((sign.apply (decreaseExponent m e t).1 : Int) : ℚ) * 2 ^ t = direction sign * (m * 2 ^ e) := by
  have shifted := shifted_value m e (e - t).toNat
  rw [Int.toNat_of_nonneg (by omega), sub_sub_cancel] at shifted
  rw [← shifted, decreaseExponent]
  cases sign <;> simp only [Sign.apply, direction, Int.cast_neg, Int.cast_natCast, neg_mul, one_mul]

-- Unless one of the numbers is zero, the exact sum of the aligned mantissas is rounded.
theorem sum_cases (x y : Float) (p q : ℚ) (left : value? x = some p) (right : value? y = some q) :
    value? (x + y) = some (p + q) ∨ ∃ n e : ℤ, (n : ℚ) * 2 ^ e = p + q ∧
      x + y = Float.ofModel (Float.Model.pack (UnpackedFloat.normalize Format.binary64 n e .positive)) := by
  change value? (Float.ofModel (Float.Model.pack
    (UnpackedFloat.add Format.binary64 x.toModel.unpack y.toModel.unpack))) = _ ∨ ∃ n e : ℤ, _ ∧
      Float.ofModel (Float.Model.pack (UnpackedFloat.add Format.binary64 x.toModel.unpack y.toModel.unpack)) = _
  obtain ⟨⟨sign, parts⟩, rfl⟩ | ⟨sign, m, e, canonical, parts, rfl⟩ := value_cases x p left <;>
    obtain ⟨⟨sign', parts'⟩, rfl⟩ | ⟨sign', m', e', canonical', parts', rfl⟩ := value_cases y q right <;>
    rw [parts, parts']
  · rw [add_zero]
    cases sign <;> cases sign' <;> exact .inl (packed_zero _)
  · rw [zero_add]
    exact .inl (packed_value sign' m' e' canonical')
  · rw [add_zero]
    exact .inl (packed_value sign m e canonical)
  · refine .inr ⟨_, min e e', ?_, rfl⟩
    rw [Int.cast_add, add_mul]
    exact congrArg₂ (· + ·) (aligned_value sign m e _ (min_le_left e e')) (aligned_value sign' m' e' _ (min_le_right e e'))

/-- A sum is exact when it is the value of a number. -/
theorem sum_exact (x y z : Float) (p q : ℚ) (left : value? x = some p) (right : value? y = some q)
    (sum : value? z = some (p + q)) : value? (x + y) = some (p + q) := by
  obtain exactly' | ⟨n, e, value, is⟩ := sum_cases x y p q left right
  · exact exactly'
  · rw [← value] at sum ⊢
    rw [is, normalize_represented z n e .positive sum]

/-! Numbers of a small mantissa. -/

theorem shift_pos (n t : Nat) : 0 < n <<< t ↔ 0 < n := by
  rw [Nat.shiftLeft_eq]
  exact Nat.mul_pos_iff_of_pos_right (Nat.two_pow_pos t)

theorem small_represented (sign : Sign) (m : Nat) (e : Int) (small : m < 2 ^ 53) (least : -1074 ≤ e) (most : e ≤ 971) :
    ∃ z, value? z = some (direction sign * (m * 2 ^ e)) := by
  rcases Nat.eq_zero_or_pos m with rfl | pos
  · refine ⟨_, (packed_zero sign).trans ?_⟩
    rw [Nat.cast_zero, zero_mul, mul_zero]
  · -- the mantissa is shifted as far as its size and the least exponent let it
    have short : m.log2 < 53 := (Nat.log2_lt (Nat.ne_of_gt pos)).mpr small
    obtain ⟨k, is⟩ : ∃ k : Nat, k = min (52 - m.log2) (e + 1074).toNat := ⟨_, rfl⟩
    have log := log_shifted m k pos
    have above := (shift_pos m k).mpr pos
    have canonical : Canonical (m <<< k) (e - k) := by
      refine ⟨above, (Nat.log2_lt (Nat.ne_of_gt above)).mp (by omega), ?_, by omega, by omega⟩
      by_cases last : k = 52 - m.log2
      · exact .inl ((Nat.le_log2 (Nat.ne_of_gt above)).mp (by omega))
      · exact .inr (by omega)
    refine ⟨_, (packed_value sign _ _ canonical).trans ?_⟩
    rw [shifted_value]

/-- The value that parts stand for. -/
def Scaled.value (s : Scaled) : ℚ :=
  direction (if s.negative then .negative else .positive) * (s.mantissa * 2 ^ s.exponent)

/-- Parts within the range of numbers; the mantissa need not be full. -/
structure Scaled.Fits (s : Scaled) : Prop where
  bounded : s.mantissa < 2 ^ 53
  least : -1074 ≤ s.exponent
  most : s.exponent ≤ 971

theorem whole_fits (negative : Bool) (n : Nat) (small : n < 2 ^ 53) : (⟨negative, n, 0⟩ : Scaled).Fits :=
  ⟨small, by norm_num, by norm_num⟩

theorem scaled_value (x : Float) : value? x = (Scaled.ofFloat? x).map Scaled.value := by
  rw [value?, Scaled.ofFloat?]
  cases x.toModel.unpack with
  | infinity sign => rfl
  | notANumber => rfl
  | zero sign =>
    change some (0 : ℚ) = some (_ * (((0 : Nat) : ℚ) * 2 ^ (0 : Int)))
    rw [Nat.cast_zero, zero_mul, mul_zero]
  | finite sign m e pos => cases sign <;> rfl

theorem value_parts (x : Float) (q : ℚ) (value : value? x = some q) :
    ∃ s, Scaled.ofFloat? x = some s ∧ s.Fits ∧ s.value = q := by
  have cases := value_cases x q value
  rw [scaled_value, Option.map_eq_some_iff] at value
  obtain ⟨s, is, value⟩ := value
  refine ⟨s, is, ?_, value⟩
  rw [Scaled.ofFloat?] at is
  obtain ⟨⟨sign, parts⟩, _⟩ | ⟨sign, m, e, canonical, parts, _⟩ := cases <;> rw [parts] at is <;>
    obtain rfl := Option.some.inj is
  · exact whole_fits _ 0 (by decide)
  · exact ⟨canonical.bounded, canonical.least, canonical.most⟩

theorem to_float_exact (s : Scaled) (fits : s.Fits) : value? s.toFloat = some s.value := by
  obtain ⟨z, value⟩ := small_represented (if s.negative then .negative else .positive) s.mantissa s.exponent
    fits.bounded fits.least fits.most
  rw [Scaled.toFloat]
  split
  · next none =>
    rw [packed_zero, Scaled.value, none, Nat.cast_zero, zero_mul, mul_zero]
  · next some' =>
    rw [round_represented z _ s.mantissa s.exponent (Nat.pos_of_ne_zero some') value]
    exact value

/-! Integers. -/

/-- What is left of a rational number when its fraction is dropped. -/
def integerPart (q : ℚ) : ℤ :=
  if 0 ≤ q then ⌊q⌋ else ⌈q⌉

theorem integer_part_cast (a : ℤ) : integerPart a = a := by
  rw [integerPart, Int.floor_intCast, Int.ceil_intCast, ite_self]

theorem whole_floor (s : Scaled) : (s.whole : ℤ) = ⌊(s.mantissa : ℚ) * 2 ^ s.exponent⌋ := by
  rw [Scaled.whole]
  split
  · next fraction =>
    have place : (2 : ℚ) ^ s.exponent = ((2 ^ (-s.exponent).toNat : Nat) : ℚ)⁻¹ := by
      rw [Nat.cast_pow, Nat.cast_two, ← zpow_natCast, ← zpow_neg]
      congr 1
      omega
    rw [place, ← div_eq_mul_inv, Nat.shiftRight_eq_div_pow]
    exact (Rat.floor_intCast_div_natCast s.mantissa _).symm
  · next none =>
    have place : (2 : ℚ) ^ s.exponent = ((2 ^ s.exponent.toNat : Nat) : ℚ) := by
      rw [Nat.cast_pow, Nat.cast_two, ← zpow_natCast]
      congr 1
      omega
    rw [place, ← Nat.cast_mul, Int.floor_natCast, Nat.shiftLeft_eq]

/-- The integer part of parts is that of their value. -/
theorem to_int_value (s : Scaled) : s.toInt = integerPart s.value := by
  have least : (0 : ℚ) ≤ s.mantissa * 2 ^ s.exponent :=
    mul_nonneg (Nat.cast_nonneg _) (le_of_lt (two_power_pos _))
  have whole := whole_floor s
  rw [Scaled.toInt, Scaled.value, integerPart]
  cases s.negative with
  | false =>
    rw [if_neg Bool.false_ne_true, if_neg Bool.false_ne_true, direction, one_mul, if_pos least]
    exact whole
  | true =>
    rw [if_pos rfl, if_pos rfl, direction, neg_one_mul, Int.ceil_neg, whole]
    split
    · next most =>
      -- only zero is negative and not less than zero
      rw [le_antisymm (neg_nonneg.mp most) least, neg_zero, Int.floor_zero]
      rfl
    · rfl

/-- A number is an integer. -/
def Integral (x : Float) (a : Int) : Prop :=
  ∃ s, Scaled.ofFloat? x = some s ∧ s.isWhole = true ∧ s.toInt = a

theorem integral_value (x : Float) (a : Int) (integral : Integral x a) : value? x = some (a : ℚ) := by
  obtain ⟨s, parts, whole, rfl⟩ := integral
  rw [scaled_value, parts, Option.map_some, Option.some_inj, to_int_value]
  obtain ⟨n, natural⟩ : ∃ n : Nat, (s.mantissa : ℚ) * 2 ^ s.exponent = n := by
    rw [Scaled.isWhole, Bool.or_eq_true, decide_eq_true_iff, beq_iff_eq] at whole
    by_cases none : 0 ≤ s.exponent
    · refine ⟨s.mantissa * 2 ^ s.exponent.toNat, ?_⟩
      rw [Nat.cast_mul, Nat.cast_pow, Nat.cast_two, ← zpow_natCast, Int.toNat_of_nonneg none]
    · -- what follows the point are zeros
      obtain ⟨n, is⟩ := Nat.dvd_of_mod_eq_zero (whole.resolve_left none)
      change s.mantissa = 2 ^ (-s.exponent).toNat * n at is
      refine ⟨n, ?_⟩
      rw [is, Nat.cast_mul, Nat.cast_pow, Nat.cast_two, ← zpow_natCast, Int.toNat_of_nonneg (by omega), mul_right_comm,
        ← two_power_add, neg_add_cancel, zpow_zero, one_mul]
  rw [Scaled.value, natural]
  cases s.negative with
  | false =>
    rw [if_neg Bool.false_ne_true, direction, one_mul]
    exact congrArg Int.cast (integer_part_cast n).symm
  | true =>
    have part := integer_part_cast (-(n : ℤ))
    rw [Int.cast_neg, Int.cast_natCast] at part
    rw [if_pos rfl, direction, neg_one_mul, part, Int.cast_neg, Int.cast_natCast]

theorem natural_value (n : Nat) (small : n < 2 ^ 53) : value? (Float.ofNat n) = some (n : ℚ) := by
  rcases Nat.eq_zero_or_pos n with rfl | pos
  · rw [zero_value _ _ zero_parts, Nat.cast_zero]
  · have there := (shift_pos n (52 - n.log2)).mpr pos
    have short : n.log2 < 53 := (Nat.log2_lt (Nat.ne_of_gt pos)).mpr small
    rw [parts_value _ _ _ _ there (whole_parts n pos small there),
      show (n.log2 : Int) - 52 = 0 - (52 - n.log2 : Nat) by omega, shifted_value, direction, one_mul, zpow_zero, mul_one]

theorem negative_value (x : Float) (q : ℚ) (value : value? x = some q) : value? (-x) = some (-q) := by
  obtain ⟨⟨sign, parts⟩, rfl⟩ | ⟨sign, m, e, canonical, parts, rfl⟩ := value_cases x q value
  · rw [neg_zero]
    change value? (Float.ofModel (Float.Model.pack x.toModel.unpack.neg)) = _
    rw [parts]
    exact packed_zero (-sign)
  · rw [parts_value _ _ _ _ _ (negative_parts x sign m e canonical.positive parts), ← neg_mul]
    cases sign
    · rw [direction, neg_neg]
      rfl
    · rfl

/-- An integer of less than 53 bits is the value of the number that it is made into. -/
theorem integer_value (a : ℤ) (small : a.natAbs < 2 ^ 53) : value? (Float.ofInt a) = some (a : ℚ) := by
  cases a with
  | ofNat n => exact natural_value n small
  | negSucc n =>
    have value := negative_value _ _ (natural_value (n + 1) small)
    rw [show ((Int.negSucc n : ℤ) : ℚ) = -((n + 1 : Nat) : ℚ) by push_cast; ring]
    exact value

/-! A sum that is not above zero need not be exact. -/

theorem round_signed (sign : Sign) (m : Nat) (e : Int) :
    UnpackedFloat.round Format.binary64 sign m e = .zero sign ∨
      ∃ m' e' pos, UnpackedFloat.round Format.binary64 sign m e = .finite sign m' e' pos := by
  rw [UnpackedFloat.round]
  delta roundWithAccuracy
  dsimp only
  generalize shiftToTargetExponent Format.binary64 (ExtendedMantissa.roundedMantissa _) _ .exact = last
  by_cases none : last.1.mantissa = 0
  · exact .inl (dif_pos none)
  · exact .inr ⟨_, _, Nat.pos_of_ne_zero none, dif_neg none⟩

-- Whatever a negative number is packed as, its sign bit is set.
theorem negative_not_above (m : Nat) (e : Int) (pos : 0 < m) :
    ¬ 0.0 < Float.ofModel (Float.Model.pack (.finite .negative m e pos)) := by
  have signed : signOf (UnpackedFloat.pack Format.binary64 (.finite .negative m e pos)) = Sign.negative.toBitVec := by
    delta UnpackedFloat.pack
    dsimp only
    split
    · exact sign_packed .negative _ _
    · split <;> exact sign_packed .negative _ _
  have parts := unpacks (UnpackedFloat.pack Format.binary64 (.finite .negative m e pos))
  rw [less_iff, beq_iff_eq, zero_unpacked]
  change ¬ (UnpackedFloat.zero .positive).compare
    (UnpackedFloat.unpack Format.binary64 (UnpackedFloat.pack Format.binary64 (.finite .negative m e pos))) = some .lt
  generalize UnpackedFloat.unpack Format.binary64 _ = unpacked at parts ⊢
  cases unpacked with
  | infinity sign =>
    obtain rfl : .negative = sign := by
      rw [← parts.2.2, signed, sign_kept]
    nofun
  | notANumber => nofun
  | zero sign => nofun
  | finite sign m' e' pos' =>
    obtain rfl : .negative = sign := by
      rw [← parts.1, signed, sign_kept]
    nofun

theorem sum_not_above (x y : Float) (p q : ℚ) (left : value? x = some p) (right : value? y = some q) (most : p + q ≤ 0) :
    ¬ 0.0 < x + y := by
  have zero : value? 0.0 = some 0 := zero_value _ _ zero_unpacked
  have below (z : Float) (v : ℚ) (value : value? z = some v) (most : v ≤ 0) : ¬ 0.0 < z := by
    rw [value_less _ _ _ _ zero value]
    exact not_lt_of_ge most
  obtain exactly' | ⟨n, e, value, is⟩ := sum_cases x y p q left right
  · exact below _ _ exactly' most
  · rw [← value] at most
    have most := Int.cast_nonpos.mp (nonpos_of_mul_nonpos_left most (two_power_pos e))
    rw [is, UnpackedFloat.normalize]
    rcases Int.lt_or_eq_of_le most with less | rfl
    · rw [compare_lt_iff_lt.mpr less]
      dsimp only
      rcases round_signed .negative (-n).toNat e with none | ⟨m', e', pos, is⟩
      · rw [none]
        exact below _ 0 (packed_zero _) le_rfl
      · rw [is]
        exact negative_not_above m' e' pos
    · rw [compare_eq_iff_eq.mpr rfl]
      exact below _ 0 (packed_zero _) le_rfl

/-! Truncation and remainders. They need no rounding at all. -/

theorem truncate_value (x : Float) (q : ℚ) (value : value? x = some q) :
    value? (truncate x) = some (integerPart q : ℚ) := by
  obtain ⟨s, parts, fits, rfl⟩ := value_parts x q value
  rw [truncate, parts, ← to_int_value]
  dsimp only
  split
  · next none =>
    have whole : (s.whole : ℚ) = s.mantissa * 2 ^ s.exponent := by
      rw [Scaled.whole, if_neg (by omega), Nat.shiftLeft_eq, Nat.cast_mul, Nat.cast_pow, Nat.cast_two, ← zpow_natCast,
        Int.toNat_of_nonneg none]
    rw [value, Scaled.value, ← whole, Scaled.toInt]
    cases s.negative <;> simp [direction]
  · next fraction =>
    have bounded : s.whole < 2 ^ 53 := by
      rw [Scaled.whole, if_pos (by omega), Nat.shiftRight_eq_div_pow]
      exact Nat.lt_of_le_of_lt (Nat.div_le_self _ _) fits.bounded
    rw [to_float_exact _ (whole_fits s.negative s.whole bounded), Scaled.value, Scaled.toInt]
    cases s.negative <;> simp [direction]

theorem to_integer_value (x : Float) (q : ℚ) (value : value? x = some q) :
    value? (toInteger x) = some (integerPart q : ℚ) := by
  rw [toInteger, value_number x q value]
  exact truncate_value x q value

theorem clamp_value (most : Nat) (x : Float) (a : ℤ) (value : value? x = some (a : ℚ)) :
    clamp most x = min a.toNat most := by
  obtain ⟨s, parts, _, is⟩ := value_parts x a value
  have whole := to_int_value s
  rw [is, integer_part_cast, Scaled.toInt] at whole
  rw [clamp, parts]
  dsimp only
  split at whole
  · next negative =>
    rw [if_pos negative]
    omega
  · next positive =>
    rw [if_neg positive, ← whole, Int.toNat_natCast]

-- A remainder is the same in every unit.
theorem remainder_scaled (M N a b : Nat) (c : ℚ) (positive : 0 < c) (left : M * c = a) (right : N * c = b) :
    ((M % N : Nat) : ℚ) * c = (a % b : Nat) := by
  rcases Nat.eq_zero_or_pos N with rfl | some'
  · obtain rfl : b = 0 := by
      rw [Nat.cast_zero, zero_mul] at right
      exact_mod_cast right.symm
    rw [Nat.mod_zero, Nat.mod_zero, left]
  · have split : (M : ℚ) = N * (M / N : Nat) + (M % N : Nat) := by
      exact_mod_cast (Nat.div_add_mod M N).symm
    have rest : (a : ℚ) = b * (M / N : Nat) + (M % N : Nat) * c := by
      rw [← left, ← right, split]
      ring
    have less : ((M % N : Nat) : ℚ) * c < b := by
      rw [← right]
      exact mul_lt_mul_of_pos_right (Nat.cast_lt.mpr (Nat.mod_lt M some')) positive
    have least : b * (M / N) ≤ a := by
      have least : (b : ℚ) * (M / N : Nat) ≤ a := by
        rw [rest]
        exact le_add_of_nonneg_right (mul_nonneg (Nat.cast_nonneg _) (le_of_lt positive))
      exact_mod_cast least
    have difference : ((a - b * (M / N) : Nat) : ℚ) = (M % N : Nat) * c := by
      rw [Nat.cast_sub least, Nat.cast_mul, rest]
      ring
    rw [← difference] at less ⊢
    have same : (a - b * (M / N)) % b = a % b := Nat.sub_mul_mod least
    rw [← same, Nat.mod_eq_of_lt (Nat.cast_lt.mp less)]

-- The parts of an integer are its sign and its magnitude, at any exponent below their own.
theorem integer_magnitude (s : Scaled) (a : ℤ) (u : ℤ) (value : s.value = a) (less : u ≤ s.exponent) :
    ((s.mantissa <<< (s.exponent - u).toNat : Nat) : ℚ) * 2 ^ u = a.natAbs ∧
      a = if s.negative then -(a.natAbs : ℤ) else a.natAbs := by
  have least : (0 : ℚ) ≤ s.mantissa * 2 ^ s.exponent :=
    mul_nonneg (Nat.cast_nonneg _) (le_of_lt (two_power_pos _))
  have shifted := shifted_value s.mantissa s.exponent (s.exponent - u).toNat
  rw [Int.toNat_of_nonneg (by omega), sub_sub_cancel] at shifted
  rw [shifted]
  rw [Scaled.value] at value
  cases sign : s.negative with
  | false =>
    rw [sign, if_neg Bool.false_ne_true, direction, one_mul] at value
    have above : 0 ≤ a := by
      rw [value] at least
      exact_mod_cast least
    rw [value, if_neg Bool.false_ne_true, Nat.cast_natAbs, abs_of_nonneg above]
    exact ⟨rfl, by omega⟩
  | true =>
    rw [sign, if_pos rfl, direction, neg_one_mul, neg_eq_iff_eq_neg] at value
    have below : a ≤ 0 := by
      rw [value, neg_nonneg] at least
      exact_mod_cast least
    rw [value, if_pos rfl, Nat.cast_natAbs, abs_of_nonpos below]
    exact ⟨(Int.cast_neg a).symm, by omega⟩

/-- The remainder of an integer by a whole number is exact and has the sign of the integer. -/
theorem remainder_value (x : Float) (a : ℤ) (n : Nat) (value : value? x = some (a : ℚ)) (pos : 0 < n) (small : n < 2 ^ 53) :
    value? (remainder x (Float.ofNat n)) = some ((a.tmod n : ℤ) : ℚ) := by
  obtain ⟨s, parts, fits, is⟩ := value_parts x a value
  obtain ⟨t, parts', fits', is'⟩ := value_parts _ ((n : ℤ) : ℚ) (natural_value n small)
  obtain ⟨u, unit⟩ : ∃ u, u = min s.exponent t.exponent := ⟨_, rfl⟩
  obtain ⟨left, signed⟩ := integer_magnitude s a u is (by omega)
  have right := (integer_magnitude t n u is' (by omega)).1
  rw [Int.natAbs_natCast] at right
  have nonzero : t.mantissa ≠ 0 := by
    intro none
    rw [none, Nat.zero_shiftLeft, Nat.cast_zero, zero_mul] at right
    exact Nat.ne_of_lt pos (Nat.cast_injective right)
  have rest := remainder_scaled _ _ _ _ _ (two_power_pos u) left right
  have bounded : (s.mantissa <<< (s.exponent - u).toNat) % (t.mantissa <<< (t.exponent - u).toNat) < 2 ^ 53 := by
    -- one of the two mantissas is not shifted, and the remainder is no greater than either
    rcases min_choice s.exponent t.exponent with first | second
    · rw [show (s.exponent - u).toNat = 0 by omega, Nat.shiftLeft_zero]
      exact Nat.lt_of_le_of_lt (Nat.mod_le _ _) fits.bounded
    · rw [show (t.exponent - u).toNat = 0 by omega, Nat.shiftLeft_zero]
      exact Nat.lt_trans (Nat.mod_lt _ (Nat.pos_of_ne_zero nonzero)) fits'.bounded
  have within : -1074 ≤ u ∧ u ≤ 971 := by
    have least := fits.least
    have least' := fits'.least
    have most := fits.most
    omega
  rw [remainder, parts, parts']
  dsimp only
  rw [if_neg nonzero, ← unit, to_float_exact ⟨s.negative, _, u⟩ ⟨bounded, within.1, within.2⟩, Scaled.value, rest]
  cases sign : s.negative with
  | false =>
    rw [sign, if_neg Bool.false_ne_true] at signed
    rw [signed, Int.natAbs_natCast, ← Int.ofNat_tmod, if_neg Bool.false_ne_true, direction, one_mul, Int.cast_natCast]
  | true =>
    rw [sign, if_pos rfl] at signed
    rw [signed, Int.natAbs_neg, Int.natAbs_natCast, Int.neg_tmod, ← Int.ofNat_tmod, if_pos rfl, direction, neg_one_mul,
      Int.cast_neg, Int.cast_natCast]

end Ecma.Number
