import Mathlib.Data.Int.ModEq
import Ecma.Program.Operator
import Ecma.Proofs.Number.Exact

set_option autoImplicit false

/-!
Words are integers modulo 2^32. The word of a number is the residue of its integer part, and the bitwise operators and the
shifts compute with residues; what they give is exact.
-/

namespace Ecma.Number

open Float.Model UnpackedFloat

/-! The word of a number. -/

/-- The signed word among the integers that are congruent to one. -/
structure Signed (a k : ℤ) : Prop where
  congruent : k ≡ a [ZMOD 2 ^ 32]
  least : -2 ^ 31 ≤ k
  most : k < 2 ^ 31

theorem word_residue (x : Float) (q : ℚ) (value : value? x = some q) : (toUint32 x : ℤ) = integerPart q % 2 ^ 32 := by
  obtain ⟨s, parts, _, rfl⟩ := value_parts x q value
  rw [toUint32, parts, ← to_int_value]
  exact Int.toNat_of_nonneg (Int.emod_nonneg _ (by decide))

theorem word_infinite (x : Float) (infinite : x.isFinite = false) : toUint32 x = 0 := by
  change x.toModel.unpack.isFinite = false at infinite
  rw [toUint32, Scaled.ofFloat?]
  generalize x.toModel.unpack = parts at infinite
  cases parts with
  | infinity sign => rfl
  | notANumber => rfl
  | zero sign => cases infinite
  | finite sign m e pos => cases infinite

theorem signed_word (word : Nat) (fits : word < wordCount) : Signed word (signed word) := by
  have count : wordCount = 4294967296 := rfl
  rw [signed]
  split
  · next low =>
    have low : word < 2147483648 := low
    exact ⟨rfl, by omega, by omega⟩
  · next high =>
    have high : ¬ word < 2147483648 := high
    refine ⟨?_, by omega, by omega⟩
    rw [Int.ModEq, count]
    omega

theorem signed_congruent (a b k : ℤ) (is : Signed a k) (same : a ≡ b [ZMOD 2 ^ 32]) : Signed b k :=
  ⟨is.congruent.trans same, is.least, is.most⟩

theorem signed_residue (x : Float) (q : ℚ) (value : value? x = some q) : Signed (integerPart q) (toInt32 x) := by
  refine signed_congruent _ _ _ (signed_word _ (word_fits x)) ?_
  rw [word_residue x q value]
  exact Int.mod_modEq _ _

-- A word forgets all multiples of the count of words.
theorem word_congruent (x y : Float) (a b : ℤ) (left : value? x = some (a : ℚ)) (right : value? y = some (b : ℚ))
    (same : b ≡ a [ZMOD 2 ^ 32]) : toUint32 y = toUint32 x := by
  have word := word_residue x a left
  have word' := word_residue y b right
  rw [integer_part_cast] at word word'
  have equal : (toUint32 y : ℤ) = toUint32 x := by
    rw [word, word']
    exact same
  exact_mod_cast equal

/-! The word of a number by floating-point steps. -/

/-- The remainder moved up to where it is not negative. -/
def euclideanRemainder (x y : Float) : Float :=
  let rest := remainder x y
  if rest < 0.0 then rest + y.abs else rest

theorem natural_abs (n : Nat) (small : n < 2 ^ 53) : value? (Float.ofNat n).abs = some (n : ℚ) := by
  change value? (Float.ofModel (Float.Model.pack (Float.ofNat n).toModel.unpack.abs)) = _
  obtain ⟨⟨sign, parts⟩, zero⟩ | ⟨sign, m, e, canonical, parts, is⟩ := value_cases _ _ (natural_value n small)
  · rw [parts, zero]
    exact packed_zero .positive
  · have above := magnitude_pos m e canonical.positive
    rw [parts]
    refine (packed_value .positive m e canonical).trans ?_
    rw [direction, one_mul]
    cases sign with
    | positive => rw [is, direction, one_mul]
    | negative =>
      have least : (0 : ℚ) ≤ n := Nat.cast_nonneg n
      rw [direction, neg_one_mul] at is
      linarith

/-- The sum that moves a remainder up is exact as well. -/
theorem euclidean_value (x : Float) (a : ℤ) (n : Nat) (value : value? x = some (a : ℚ)) (pos : 0 < n) (small : n < 2 ^ 53) :
    value? (euclideanRemainder x (Float.ofNat n)) = some ((a % n : ℤ) : ℚ) := by
  have rest := remainder_value x a n value pos small
  have zero : value? 0.0 = some 0 := zero_value _ _ zero_unpacked
  have least : 0 ≤ a % n := Int.emod_nonneg a (by omega)
  have most : a % n < n := Int.emod_lt_of_pos a (by omega)
  have moved := Int.tmod_eq_emod (a := a) (b := n)
  rw [euclideanRemainder, if_congr ((value_less _ _ _ _ rest zero).trans Int.cast_lt_zero) rfl rfl]
  split
  · next negative =>
    have sum : ((a.tmod n : ℤ) : ℚ) + (n : ℚ) = ((a % n : ℤ) : ℚ) := by
      have sum : a.tmod n + n = a % n := by
        split at moved <;> omega
      exact_mod_cast sum
    have there : value? (Float.ofInt (a % n)) = some ((a.tmod n : ℤ) + (n : ℚ)) := by
      rw [sum]
      exact integer_value _ (by omega)
    rw [sum_exact _ _ _ _ _ rest (natural_abs n small) there, sum]
  · next positive =>
    rw [rest]
    split at moved
    · rw [moved]
      simp
    · omega

theorem word_steps (x : Float) : toUint32 x =
    if x.isFinite then clamp (wordCount - 1) (euclideanRemainder (truncate x) (Float.ofNat wordCount)) else 0 := by
  cases finite : x.isFinite with
  | false => exact word_infinite x finite
  | true =>
    obtain ⟨q, value⟩ := finite_value x finite
    have rest := euclidean_value _ _ wordCount (truncate_value x q value) (by decide) (by decide)
    have word := word_residue x q value
    have fits := word_fits x
    rw [if_pos rfl, clamp_value _ _ _ rest]
    change (toUint32 x : ℤ) = integerPart q % (wordCount : ℤ) at word
    omega

/-! Integers as numbers. -/

/-- A number is exactly an integer; the zero among them has no sign. -/
def Exactly (x : Float) (a : ℤ) : Prop :=
  value? x = some (a : ℚ) ∧ isNegative x = decide (a < 0)

theorem sign_shown (x : Float) (sign : Sign) (is : Sign.ofBitVec (signOf x.toModel.toBits.toBitVec) = sign) :
    isNegative x = (sign == .negative) := by
  rw [negative_bit, ← is]
  rcases BitVec.eq_zero_or_eq_one (signOf x.toModel.toBits.toBitVec) with bit | bit <;> rw [bit] <;> rfl

theorem nonzero_sign (x : Float) (q : ℚ) (value : value? x = some q) (nonzero : q ≠ 0) :
    isNegative x = decide (q < 0) := by
  obtain ⟨_, zero⟩ | ⟨sign, m, e, canonical, parts, rfl⟩ := value_cases x q value
  · exact absurd zero nonzero
  · have above := magnitude_pos m e canonical.positive
    have bits := unpacks x.toModel.toBits.toBitVec
    change UnpackedFloat.unpack Format.binary64 x.toModel.toBits.toBitVec = _ at parts
    rw [parts] at bits
    rw [sign_shown x sign bits.1]
    cases sign with
    | positive =>
      rw [direction, one_mul, decide_eq_false (by linarith)]
      rfl
    | negative =>
      rw [direction, neg_one_mul, decide_eq_true (by linarith)]
      rfl

theorem integer_exactly (a : ℤ) (small : a.natAbs < 2 ^ 53) : Exactly (Float.ofInt a) a := by
  have value := integer_value a small
  refine ⟨value, ?_⟩
  rcases eq_or_ne a 0 with rfl | nonzero
  · exact sign_shown _ .positive (zero_sign _ _ zero_parts)
  · rw [nonzero_sign _ _ value (Int.cast_ne_zero.mpr nonzero)]
    exact decide_eq_decide.mpr Int.cast_lt_zero

theorem natural_exactly (n : Nat) (small : n < 2 ^ 53) : Exactly (Float.ofNat n) n :=
  integer_exactly n small

theorem signed_exactly (a k : ℤ) (is : Signed a k) : Exactly (Float.ofInt k) k := by
  obtain ⟨_, least, most⟩ := is
  exact integer_exactly k (by omega)

/-! Shifts. -/

section

variable (x y : Float)

theorem signed_of_word : Signed (toUint32 x) (toInt32 x) :=
  signed_word _ (word_fits x)

theorem shift_left_signed : ∃ k, Signed (toInt32 x * 2 ^ (toUint32 y % 32)) k ∧ Exactly (shiftLeft x y) k := by
  have word := signed_word (toUint32 x * 2 ^ (toUint32 y % 32) % wordCount) (Nat.mod_lt _ (by decide))
  have product : ((toUint32 x * 2 ^ (toUint32 y % 32) % wordCount : Nat) : ℤ) ≡
      toInt32 x * 2 ^ (toUint32 y % 32) [ZMOD 2 ^ 32] := by
    calc ((toUint32 x * 2 ^ (toUint32 y % 32) % wordCount : Nat) : ℤ)
        ≡ toUint32 x * 2 ^ (toUint32 y % 32) [ZMOD 2 ^ 32] := by
          push_cast
          exact Int.mod_modEq _ _
      _ ≡ toInt32 x * 2 ^ (toUint32 y % 32) [ZMOD 2 ^ 32] := (signed_of_word x).congruent.symm.mul_right _
  exact ⟨_, signed_congruent _ _ _ word product, signed_exactly _ _ word⟩

theorem shift_right_floor : Exactly (shiftRight x y) ⌊(toInt32 x : ℚ) / 2 ^ (toUint32 y % 32)⌋ := by
  have floor : ⌊(toInt32 x : ℚ) / 2 ^ (toUint32 y % 32)⌋ = toInt32 x / (2 ^ (toUint32 y % 32) : Nat) := by
    rw [← Rat.floor_intCast_div_natCast, Nat.cast_pow, Nat.cast_two]
  obtain ⟨_, least, most⟩ := signed_of_word x
  have quotient := Int.natAbs_ediv_le_natAbs (toInt32 x) (2 ^ (toUint32 y % 32) : Nat)
  change Exactly (Float.ofInt (toInt32 x / (2 ^ (toUint32 y % 32) : Nat))) _
  rw [floor]
  exact integer_exactly _ (by omega)

theorem shift_unsigned_floor : Exactly (shiftRightUnsigned x y) ⌊(toUint32 x : ℚ) / 2 ^ (toUint32 y % 32)⌋ := by
  have floor : ⌊(toUint32 x : ℚ) / 2 ^ (toUint32 y % 32)⌋ = (toUint32 x / 2 ^ (toUint32 y % 32) : Nat) := by
    have floor := Rat.floor_intCast_div_natCast (toUint32 x) (2 ^ (toUint32 y % 32))
    rwa [Nat.cast_pow, Nat.cast_two, Int.cast_natCast] at floor
  have count : wordCount < 2 ^ 53 := by
    decide
  have fits := word_fits x
  have quotient := Nat.div_le_self (toUint32 x) (2 ^ (toUint32 y % 32))
  change Exactly (Float.ofNat (toUint32 x / 2 ^ (toUint32 y % 32))) _
  rw [floor]
  exact natural_exactly _ (by omega)

end

/-! Bits. -/

/-- The thirty-two bits of a signed word. -/
def bits (x : Float) : BitVec 32 :=
  BitVec.ofInt 32 (toInt32 x)

theorem bits_word (x : Float) : (bits x).toNat = toUint32 x := by
  have same := (signed_of_word x).congruent
  have count : wordCount = 4294967296 := rfl
  have fits := word_fits x
  rw [Int.ModEq] at same
  rw [bits, BitVec.toNat_ofInt]
  omega

theorem bits_signed (b : BitVec 32) : signed b.toNat = b.toInt := by
  have bound := b.isLt
  have half : Nat.pow 2 31 = 2147483648 := rfl
  rw [signed, BitVec.toInt_eq_toNat_cond, half]
  exact if_congr (by omega) rfl rfl

theorem bits_exactly (b : BitVec 32) : Exactly (Float.ofInt (signed b.toNat)) b.toInt := by
  have exactly' := signed_exactly _ _ (signed_word b.toNat b.isLt)
  rwa [bits_signed] at exactly' ⊢

/-- A numeric operator makes an integer of two numbers. -/
def Computes (op : Syntax.BinaryOp) (x y : Float) (a : ℤ) : Prop :=
  ∃ f, Program.numeric? op = some f ∧ Exactly (f x y) a

section

variable (x y : Float)

theorem bit_and_computes : Computes .bitAnd x y (bits x &&& bits y).toInt := by
  refine ⟨bitwiseAnd, rfl, ?_⟩
  rw [bitwiseAnd, ← bits_word x, ← bits_word y, ← BitVec.toNat_and]
  exact bits_exactly _

theorem bit_or_computes : Computes .bitOr x y (bits x ||| bits y).toInt := by
  refine ⟨bitwiseOr, rfl, ?_⟩
  rw [bitwiseOr, ← bits_word x, ← bits_word y, ← BitVec.toNat_or]
  exact bits_exactly _

theorem bit_xor_computes : Computes .bitXor x y (bits x ^^^ bits y).toInt := by
  refine ⟨bitwiseXor, rfl, ?_⟩
  rw [bitwiseXor, ← bits_word x, ← bits_word y, ← BitVec.toNat_xor]
  exact bits_exactly _

end

/-! Adding multiples of the count of words. -/

section

variable (x y z : Float) (a k : ℤ) (left : value? x = some (a : ℚ))
include left

theorem words_periodic (right : value? y = some ((a + k * 2 ^ 32 : ℤ) : ℚ)) :
    toUint32 y = toUint32 x ∧ toInt32 y = toInt32 x := by
  have same : a + k * 2 ^ 32 ≡ a [ZMOD 2 ^ 32] := by
    rw [Int.ModEq]
    omega
  have word := word_congruent x y a _ left right same
  exact ⟨word, congrArg signed word⟩

theorem words_added (right : value? y = some ((k * 2 ^ 32 : ℤ) : ℚ))
    (sum : value? z = some ((a + k * 2 ^ 32 : ℤ) : ℚ)) : toUint32 (x + y) = toUint32 x ∧ toInt32 (x + y) = toInt32 x := by
  have split : ((a + k * 2 ^ 32 : ℤ) : ℚ) = (a : ℚ) + ((k * 2 ^ 32 : ℤ) : ℚ) := Int.cast_add a _
  have exactly' := sum_exact x y z _ _ left right (sum.trans (congrArg some split))
  exact words_periodic x (x + y) a k left (exactly'.trans (congrArg some split.symm))

end

theorem not_finite (x : Float) (either : x.isNaN = true ∨ x.isInf = true) : x.isFinite = false := by
  change x.toModel.unpack.isNaN = true ∨ x.toModel.unpack.isInf = true at either
  change x.toModel.unpack.isFinite = false
  generalize x.toModel.unpack = parts at either
  cases parts with
  | infinity sign => rfl
  | notANumber => rfl
  | zero sign => exact either.elim nofun nofun
  | finite sign m e pos => exact either.elim nofun nofun

/--
Words, bitwise operators and shifts are arithmetic modulo 2^32. The unsigned word of a finite number is the residue of its
integer part, the signed word is the integer congruent to it from -2^31 up to 2^31, and NaN and the infinities have the
word zero. Truncation, remainder and correction of the sign, each computed in floating point, lead to the same word. Words
of integers do not change when a multiple of 2^32 is added, also by a sum that is exact. A shift to the left is
a product modulo 2^32, shifts to the right are quotients rounded down, with the five low bits of the right operand
as their count, and the other operators work on the two's complement of the signed words; all results are exact.
-/
theorem words_modular :
    (∀ x : Float, x.isFinite = true → ∃ q, value? x = some q ∧
      (toUint32 x : ℤ) = integerPart q % 2 ^ 32 ∧ Signed (integerPart q) (toInt32 x)) ∧
    (∀ x : Float, x.isNaN = true ∨ x.isInf = true → toUint32 x = 0 ∧ toInt32 x = 0) ∧
    (∀ x : Float, toUint32 x =
      if x.isFinite then clamp (wordCount - 1) (euclideanRemainder (truncate x) (Float.ofNat wordCount)) else 0) ∧
    (∀ (x y : Float) (a k : ℤ), value? x = some (a : ℚ) → value? y = some ((a + k * 2 ^ 32 : ℤ) : ℚ) →
      toUint32 y = toUint32 x ∧ toInt32 y = toInt32 x) ∧
    (∀ (x y z : Float) (a k : ℤ), value? x = some (a : ℚ) → value? y = some ((k * 2 ^ 32 : ℤ) : ℚ) →
      value? z = some ((a + k * 2 ^ 32 : ℤ) : ℚ) → toUint32 (x + y) = toUint32 x ∧ toInt32 (x + y) = toInt32 x) ∧
    ∀ x y : Float,
      (∃ k, Signed (toInt32 x * 2 ^ (toUint32 y % 32)) k ∧ Computes .shiftLeft x y k) ∧
      Computes .shiftRight x y ⌊(toInt32 x : ℚ) / 2 ^ (toUint32 y % 32)⌋ ∧
      Computes .shiftRightUnsigned x y ⌊(toUint32 x : ℚ) / 2 ^ (toUint32 y % 32)⌋ ∧
      Computes .bitAnd x y (bits x &&& bits y).toInt ∧
      Computes .bitOr x y (bits x ||| bits y).toInt ∧
      Computes .bitXor x y (bits x ^^^ bits y).toInt := by
  refine ⟨fun x finite => ?_, fun x either => ?_, word_steps, words_periodic, words_added, fun x y => ?_⟩
  · obtain ⟨q, value⟩ := finite_value x finite
    exact ⟨q, value, word_residue x q value, signed_residue x q value⟩
  · have word := word_infinite x (not_finite x either)
    exact ⟨word, congrArg signed word⟩
  · obtain ⟨k, is, left⟩ := shift_left_signed x y
    exact ⟨⟨k, is, _, rfl, left⟩, ⟨_, rfl, shift_right_floor x y⟩, ⟨_, rfl, shift_unsigned_floor x y⟩,
      bit_and_computes x y, bit_or_computes x y, bit_xor_computes x y⟩

/-- Five and a multiple of the count of words make a sum with the word of five. -/
theorem words_modular_added :
    (Float.ofNat 5).isFinite = true ∧ (nan.isNaN = true ∧ toUint32 nan = 0) ∧
      value? (Float.ofNat 5) = some ((5 : ℤ) : ℚ) ∧ value? (Float.ofNat (2 ^ 32)) = some ((1 * 2 ^ 32 : ℤ) : ℚ) ∧
      value? (Float.ofNat (5 + 2 ^ 32)) = some ((5 + 1 * 2 ^ 32 : ℤ) : ℚ) ∧
      (∃ q, value? (Float.ofNat 5) = some q ∧ (toUint32 (Float.ofNat 5) : ℤ) = integerPart q % 2 ^ 32) ∧
      toUint32 (Float.ofNat (5 + 2 ^ 32)) = toUint32 (Float.ofNat 5) ∧
      toUint32 (Float.ofNat 5 + Float.ofNat (2 ^ 32)) = toUint32 (Float.ofNat 5) := by
  obtain ⟨finite, infinite, _, periodic, added, _⟩ := words_modular
  have five : value? (Float.ofNat 5) = some ((5 : ℤ) : ℚ) := natural_value 5 (by norm_num)
  have count : value? (Float.ofNat (2 ^ 32)) = some ((1 * 2 ^ 32 : ℤ) : ℚ) := by
    rw [natural_value _ (by norm_num)]
    norm_num
  have sum : value? (Float.ofNat (5 + 2 ^ 32)) = some ((5 + 1 * 2 ^ 32 : ℤ) : ℚ) := by
    rw [natural_value _ (by norm_num)]
    norm_num
  have is_nan : nan.isNaN = true := by
    decide
  have is_finite : (Float.ofNat 5).isFinite = true := by
    decide
  obtain ⟨q, value, word, _⟩ := finite _ is_finite
  exact ⟨is_finite, ⟨is_nan, (infinite nan (.inl is_nan)).1⟩, five, count, sum, ⟨q, value, word⟩,
    (periodic _ _ 5 1 five sum).1, (added _ _ _ 5 1 five count sum).1⟩

-- Halves are dropped toward zero before the residue is taken.
example : toUint32 (-1.5) = 4294967295 ∧ toInt32 (-1.5) = -1 ∧ toInt32 2147483648.5 = -2147483648 := by
  decide

end Ecma.Number
