import Mathlib.Order.Compare
import Mathlib.Order.Lattice
import Ecma.Number.Scaled
import Ecma.Proofs.Number.IndexText

set_option autoImplicit false

/-!
The order of numbers. No number is comparable with NaN; any two others are, and then the one is at most
the other exactly when the other is not less.
-/

namespace Ecma.Number

open Float.Model UnpackedFloat

theorem swap_lexicographic (m n : Nat) (e f : Int) :
    ((compare e f).then (compare m n)).swap = (compare f e).then (compare n m) := by
  have exponents : compare f e = (compare e f).swap := Std.OrientedCmp.eq_swap
  have mantissas : compare n m = (compare m n).swap := Std.OrientedCmp.eq_swap
  rw [Ordering.swap_then, exponents, mantissas]

theorem compare_swap (a b : UnpackedFloat) : b.compare a = (a.compare b).map Ordering.swap := by
  rcases a with ⟨_ | _⟩ | _ | ⟨_ | _⟩ | ⟨_ | _, m, e, h⟩ <;>
    rcases b with ⟨_ | _⟩ | _ | ⟨_ | _⟩ | ⟨_ | _, n, f, k⟩ <;>
    first
    | rfl
    | exact congrArg some (swap_lexicographic m n e f).symm
    | exact congrArg (fun order => some order.swap) (swap_lexicographic m n e f).symm

theorem compare_none (a b : UnpackedFloat) :
    a.compare b = none ↔ a.isNaN = true ∨ b.isNaN = true := by
  rcases a with ⟨_ | _⟩ | _ | ⟨_ | _⟩ | ⟨_ | _, m, e, h⟩ <;>
    rcases b with ⟨_ | _⟩ | _ | ⟨_ | _⟩ | ⟨_ | _, n, f, k⟩ <;>
    first
    | exact iff_of_true rfl (Or.inl rfl)
    | exact iff_of_true rfl (Or.inr rfl)
    | exact iff_of_false (Option.some_ne_none _) (not_or.mpr ⟨Bool.false_ne_true, Bool.false_ne_true⟩)

theorem less_iff (x y : Float) :
    x < y ↔ (x.toModel.unpack.compare y.toModel.unpack == some .lt) = true := by
  have decided : x < y ↔ decide (x.toModel < y.toModel) = true := Iff.rfl
  rw [decided, decide_eq_true_iff]
  rfl

theorem at_most_compare (x y : Float) :
    x ≤ y ↔ (x.toModel.unpack.compare y.toModel.unpack).any (·.isLE) = true := by
  have decided : x ≤ y ↔ decide (x.toModel ≤ y.toModel) = true := Iff.rfl
  rw [decided, decide_eq_true_iff]
  rfl

theorem less_ordered (x y : Float) (less : x < y) : x.isNaN = false ∧ y.isNaN = false := by
  have found : x.toModel.unpack.compare y.toModel.unpack = some .lt := by
    simpa using (less_iff x y).mp less
  have ordered := (compare_none x.toModel.unpack y.toModel.unpack).not.mp (by simp [found])
  rw [not_or] at ordered
  exact ⟨Bool.eq_false_iff.mpr ordered.1, Bool.eq_false_iff.mpr ordered.2⟩

theorem at_most_iff (x y : Float) :
    x ≤ y ↔ x.isNaN = false ∧ y.isNaN = false ∧ ¬ y < x := by
  have unordered := compare_none x.toModel.unpack y.toModel.unpack
  rw [at_most_compare, less_iff, compare_swap x.toModel.unpack]
  change _ ↔ x.toModel.unpack.isNaN = false ∧ y.toModel.unpack.isNaN = false ∧ _
  cases found : x.toModel.unpack.compare y.toModel.unpack with
  | none =>
    have either := unordered.mp found
    rcases either with nan | nan <;> simp [nan]
  | some order =>
    have neither := unordered.not.mp (by simp [found])
    rw [not_or, Bool.not_eq_true, Bool.not_eq_true] at neither
    cases order <;> simp [neither]

/-! Numbers between zero and one. They are the positive numbers of which nothing is left without their fraction. -/

theorem zero_unpacked : (0.0 : Float).toModel.unpack = .zero .positive := by
  rfl

end Ecma.Number

/-!
The equality of numbers. Besides the zeroes, which are equal to each other, a number is equal to itself
only, and NaN to nothing. Sameness, which tells the zeroes apart and takes NaN for itself, is identity.
-/

namespace Ecma.Number

open Float.Model UnpackedFloat

/-! The bits of a number. -/

section

variable (b : BitVec 64)

def mantissaOf : BitVec 52 := @unpackMantissa Format.binary64 b

def exponentOf : BitVec 11 := @unpackExponent Format.binary64 b

def signOf : BitVec 1 := @unpackSign Format.binary64 b

theorem bits_parts (c : BitVec 64) (mantissas : mantissaOf b = mantissaOf c) (exponents : exponentOf b = exponentOf c)
    (signs : signOf b = signOf c) : b = c := by
  have low (d : BitVec 64) : (mantissaOf d).toNat = d.toNat % 2 ^ 52 := by
    simp [mantissaOf, unpackMantissa]
  have middle (d : BitVec 64) : (exponentOf d).toNat = d.toNat / 2 ^ 52 % 2 ^ 11 := by
    simp [exponentOf, unpackExponent, Nat.shiftRight_eq_div_pow]
  have high (d : BitVec 64) : (signOf d).toNat = d.toNat / 2 ^ 63 % 2 := by
    delta signOf unpackSign
    simp [Nat.shiftRight_eq_div_pow]
  have lows := (low b).symm.trans ((congrArg BitVec.toNat mantissas).trans (low c))
  have middles := (middle b).symm.trans ((congrArg BitVec.toNat exponents).trans (middle c))
  have highs := (high b).symm.trans ((congrArg BitVec.toNat signs).trans (high c))
  have left := b.isLt
  have right := c.isLt
  apply BitVec.eq_of_toNat_eq
  omega

/-- What the parts of a number are by what it is unpacked to. -/
def Unpacks : UnpackedFloat → Prop
  | .infinity sign => exponentOf b = -1#11 ∧ mantissaOf b = 0#52 ∧ Sign.ofBitVec (signOf b) = sign
  | .notANumber => exponentOf b = -1#11 ∧ mantissaOf b ≠ 0#52
  | .zero sign => exponentOf b = 0#11 ∧ mantissaOf b = 0#52 ∧ Sign.ofBitVec (signOf b) = sign
  | .finite sign m e _ => Sign.ofBitVec (signOf b) = sign ∧
    (exponentOf b = 0#11 ∧ (mantissaOf b).toNat = m ∨
      (exponentOf b).toNat = e + 1075 ∧ 2 ^ 52 + (mantissaOf b).toNat = m)

theorem unpacks : Unpacks b (UnpackedFloat.unpack Format.binary64 b) := by
  delta UnpackedFloat.unpack
  dsimp only
  change Unpacks b (if exponentOf b = -1#11 then if mantissaOf b = 0#52 then _ else _
    else if exponentOf b = 0#11 then if h : mantissaOf b = 0#52 then _ else _ else _)
  by_cases most : exponentOf b = -1#11
  · rw [if_pos most]
    by_cases none : mantissaOf b = 0#52
    · rw [if_pos none]
      exact ⟨most, none, rfl⟩
    · rw [if_neg none]
      exact ⟨most, none⟩
  · rw [if_neg most]
    by_cases least : exponentOf b = 0#11
    · rw [if_pos least]
      by_cases none : mantissaOf b = 0#52
      · rw [dif_pos none]
        exact ⟨least, none, rfl⟩
      · rw [dif_neg none]
        exact ⟨rfl, Or.inl ⟨least, rfl⟩⟩
    · rw [if_neg least]
      refine ⟨rfl, Or.inr ⟨?_, (implicit_mantissa (mantissaOf b)).symm⟩⟩
      change ((exponentOf b).toNat : Int) = (exponentOf b).toNat - (1023 + 52 : Nat) + 1075
      omega

end

theorem sign_injective (b c : BitVec 1) (same : Sign.ofBitVec b = Sign.ofBitVec c) : b = c := by
  rcases BitVec.eq_zero_or_eq_one b with rfl | rfl <;> rcases BitVec.eq_zero_or_eq_one c with rfl | rfl <;>
    first
    | rfl
    | cases same

-- There is one NaN only, and all other bits are told apart by what they are unpacked to.
theorem unpacks_injective (b c : BitVec 64) (parts : UnpackedFloat) (left : Unpacks b parts)
    (right : Unpacks c parts) (number : parts.isNaN = false) : b = c := by
  cases parts with
  | infinity sign =>
    exact bits_parts b c (left.2.1.trans right.2.1.symm) (left.1.trans right.1.symm)
      (sign_injective _ _ (left.2.2.trans right.2.2.symm))
  | notANumber => cases number
  | zero sign =>
    exact bits_parts b c (left.2.1.trans right.2.1.symm) (left.1.trans right.1.symm)
      (sign_injective _ _ (left.2.2.trans right.2.2.symm))
  | finite sign m e pos =>
    obtain ⟨leftSign, left⟩ := left
    obtain ⟨rightSign, right⟩ := right
    have smallLeft := (mantissaOf b).isLt
    have smallRight := (mantissaOf c).isLt
    have both : mantissaOf b = mantissaOf c ∧ exponentOf b = exponentOf c := by
      rcases left with ⟨leastLeft, left⟩ | ⟨shiftLeft, left⟩ <;>
        rcases right with ⟨leastRight, right⟩ | ⟨shiftRight, right⟩
      · exact ⟨BitVec.eq_of_toNat_eq (by omega), leastLeft.trans leastRight.symm⟩
      · omega
      · omega
      · exact ⟨BitVec.eq_of_toNat_eq (by omega), BitVec.eq_of_toNat_eq (by omega)⟩
    exact bits_parts b c both.1 both.2 (sign_injective _ _ (leftSign.trans rightSign.symm))

theorem unpack_injective (x y : Float) (same : x.toModel.unpack = y.toModel.unpack) : x = y := by
  obtain ⟨⟨⟨b⟩, validLeft⟩⟩ := x
  obtain ⟨⟨⟨c⟩, validRight⟩⟩ := y
  have bits : b = c := by
    have left := unpacks b
    have right := unpacks c
    change UnpackedFloat.unpack Format.binary64 b = UnpackedFloat.unpack Format.binary64 c at same
    rw [same] at left
    cases number : (UnpackedFloat.unpack Format.binary64 c).isNaN with
    | false => exact unpacks_injective b c _ left right number
    | true =>
      have nan : UnpackedFloat.unpack Format.binary64 c = .notANumber := by
        generalize UnpackedFloat.unpack Format.binary64 c = parts at number
        cases parts <;> first | rfl | cases number
      rw [nan] at left right
      exact (validLeft.eq_packedNaN left.1 left.2).trans (validRight.eq_packedNaN right.1 right.2).symm
  subst bits
  rfl

/-! Comparison. -/

theorem lexicographic_equal (m n : Nat) (e f : Int) (same : (compare e f).then (compare m n) = .eq) :
    m = n ∧ e = f := by
  obtain ⟨exponents, mantissas⟩ := Ordering.then_eq_eq.mp same
  exact ⟨compare_eq_iff_eq.mp mantissas, compare_eq_iff_eq.mp exponents⟩

theorem compare_equal (a b : UnpackedFloat) (found : a.compare b = some .eq) :
    a.isNaN = false ∧ b.isNaN = false ∧ (a = b ∨ ∃ s t, a = .zero s ∧ b = .zero t) := by
  rcases a with ⟨_ | _⟩ | _ | s | ⟨_ | _, m, e, h⟩ <;> rcases b with ⟨_ | _⟩ | _ | t | ⟨_ | _, n, f, k⟩
  case zero.zero => exact ⟨rfl, rfl, Or.inr ⟨s, t, rfl, rfl⟩⟩
  case finite.negative.finite.negative =>
    have same : ((compare e f).then (compare m n)).swap = .eq := Option.some.inj found
    obtain ⟨rfl, rfl⟩ := lexicographic_equal m n e f (Ordering.swap_eq_eq.mp same)
    exact ⟨rfl, rfl, Or.inl rfl⟩
  case finite.positive.finite.positive =>
    obtain ⟨rfl, rfl⟩ := lexicographic_equal m n e f (Option.some.inj found)
    exact ⟨rfl, rfl, Or.inl rfl⟩
  all_goals first
    | exact ⟨rfl, rfl, Or.inl rfl⟩
    | cases found

theorem compare_self (a : UnpackedFloat) (number : a.isNaN = false) : a.compare a = some .eq := by
  have equal (m : Nat) (e : Int) : (compare e e).then (compare m m) = .eq := by
    rw [compare_eq_iff_eq.mpr rfl, compare_eq_iff_eq.mpr rfl]
    rfl
  rcases a with ⟨_ | _⟩ | _ | s | ⟨_ | _, m, e, h⟩
  case notANumber => cases number
  case finite.negative => exact congrArg (fun order => some order.swap) (equal m e)
  case finite.positive => exact congrArg some (equal m e)
  all_goals rfl

theorem equal_compare (x y : Float) :
    (x == y) = true ↔ x.toModel.unpack.compare y.toModel.unpack = some .eq := by
  change (x.toModel.unpack.compare y.toModel.unpack == some .eq) = true ↔ _
  exact beq_iff_eq

theorem zero_iff (x : Float) : (x == 0.0) = true ↔ ∃ s, x.toModel.unpack = .zero s := by
  have zero : (0.0 : Float).toModel.unpack = .zero .positive := by rfl
  rw [equal_compare, zero]
  constructor
  · intro found
    obtain ⟨_, _, same | ⟨s, _, is, _⟩⟩ := compare_equal _ _ found
    · exact ⟨_, same⟩
    · exact ⟨s, is⟩
  · rintro ⟨s, is⟩
    rw [is]
    rfl

theorem equal_iff (x y : Float) :
    (x == y) = true ↔ x.isNaN = false ∧ y.isNaN = false ∧ (x = y ∨ (x == 0.0) = true ∧ (y == 0.0) = true) := by
  rw [equal_compare, zero_iff, zero_iff]
  constructor
  · intro found
    obtain ⟨left, right, same | ⟨s, t, leftZero, rightZero⟩⟩ := compare_equal _ _ found
    · exact ⟨left, right, Or.inl (unpack_injective x y same)⟩
    · exact ⟨left, right, Or.inr ⟨⟨s, leftZero⟩, ⟨t, rightZero⟩⟩⟩
  · rintro ⟨left, _, rfl | ⟨⟨s, leftZero⟩, ⟨t, rightZero⟩⟩⟩
    · exact compare_self _ left
    · rw [leftZero, rightZero]
      rfl

/-! Sameness. -/

theorem negative_bit (x : Float) : isNegative x = (signOf x.toModel.toBits.toBitVec == 1#1) := by
  have bit (b : BitVec 64) : (signOf b).toNat = b.toNat / 2 ^ 63 := by
    have bound := b.isLt
    delta signOf unpackSign
    simp [Nat.shiftRight_eq_div_pow]
    omega
  have shifted (w : UInt64) : (w >>> 63).toNat = w.toNat / 2 ^ 63 := by
    rw [UInt64.toNat_shiftRight, Nat.shiftRight_eq_div_pow]
    rfl
  rw [Bool.eq_iff_iff, beq_iff_eq, isNegative, beq_iff_eq, ← UInt64.toNat_inj, ← BitVec.toNat_inj, shifted, bit]
  rfl

theorem zero_sign (x : Float) (s : Sign) (zero : x.toModel.unpack = .zero s) :
    Sign.ofBitVec (signOf x.toModel.toBits.toBitVec) = s := by
  have parts := unpacks x.toModel.toBits.toBitVec
  change UnpackedFloat.unpack Format.binary64 x.toModel.toBits.toBitVec = .zero s at zero
  rw [zero] at parts
  exact parts.2.2

theorem nan_unpack (x : Float) (nan : x.isNaN = true) : x.toModel.unpack = .notANumber := by
  change x.toModel.unpack.isNaN = true at nan
  generalize x.toModel.unpack = parts at nan
  cases parts <;> first | rfl | cases nan

theorem same_number_iff (x y : Float) : sameNumber x y = true ↔ x = y := by
  rw [sameNumber]
  by_cases nan : (x.isNaN && y.isNaN) = true
  · rw [if_pos nan]
    obtain ⟨left, right⟩ := Bool.and_eq_true_iff.mp nan
    exact iff_of_true rfl (unpack_injective x y ((nan_unpack x left).trans (nan_unpack y right).symm))
  · rw [if_neg nan, Bool.and_eq_true_iff, equal_iff]
    constructor
    · rintro ⟨⟨_, _, same | ⟨left, right⟩⟩, signs⟩
      · exact same
      · obtain ⟨s, left⟩ := (zero_iff x).mp left
        obtain ⟨t, right⟩ := (zero_iff y).mp right
        rw [negative_bit, negative_bit, beq_iff_eq, Bool.eq_iff_iff, beq_iff_eq, beq_iff_eq] at signs
        have bits : signOf x.toModel.toBits.toBitVec = signOf y.toModel.toBits.toBitVec := by
          rcases BitVec.eq_zero_or_eq_one (signOf x.toModel.toBits.toBitVec) with is | is <;>
            rcases BitVec.eq_zero_or_eq_one (signOf y.toModel.toBits.toBitVec) with is' | is' <;>
            simp_all
        have same : s = t := by
          rw [← zero_sign x s left, ← zero_sign y t right, bits]
        exact unpack_injective x y (left.trans (same ▸ right.symm))
    · rintro rfl
      have number : x.isNaN = false := by simpa using nan
      exact ⟨⟨number, number, .inl rfl⟩, beq_self_eq_true _⟩

theorem same_value_iff (a b : Value) : sameValue a b = true ↔ a = b := by
  unfold sameValue
  split
  · rw [same_number_iff, Value.number.injEq]
  · exact decide_eq_true_iff

end Ecma.Number
