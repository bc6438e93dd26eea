import Ecma.Property.Key
import Mathlib.Data.List.Induction
import Mathlib.Tactic.Ring
import Mathlib.Tactic.Linarith

set_option autoImplicit false

/-!
Array indices as numbers and as texts. The shortest digits of a whole number of a word are its decimal
digits, so the key that a number is and the key that its text names are the same.
-/

namespace Ecma

open Float.Model UnpackedFloat

namespace Number

/-! The parts of a number. -/

-- A normal mantissa is as the format has it, with the implicit bit in front.
theorem implicit_mantissa (low : BitVec 52) : (1#1 ++ low).toNat = 2 ^ 52 + low.toNat := by
  rw [BitVec.toNat_append, ← Nat.shiftLeft_add_eq_or_of_lt low.isLt]
  rfl

theorem unpack_bounds (x : Float) (sign : Sign) (m : Nat) (e : Int) (pos : 0 < m)
    (parts : x.toModel.unpack = .finite sign m e pos) :
    m < 2 ^ 53 ∧ (2 ^ 52 ≤ m ∨ e = -1074) := by
  have small := (@unpackMantissa Format.binary64 x.toModel.toBits.toBitVec).isLt
  have normal := implicit_mantissa (@unpackMantissa Format.binary64 x.toModel.toBits.toBitVec)
  delta Float.Model.unpack UnpackedFloat.unpack at parts
  dsimp only at parts normal small
  by_cases special : @unpackExponent Format.binary64 x.toModel.toBits.toBitVec = -1#_
  · rw [if_pos special] at parts
    by_cases infinite : @unpackMantissa Format.binary64 x.toModel.toBits.toBitVec = 0#_
    · rw [if_pos infinite] at parts
      cases parts
    · rw [if_neg infinite] at parts
      cases parts
  · rw [if_neg special] at parts
    by_cases least : @unpackExponent Format.binary64 x.toModel.toBits.toBitVec = 0#_
    · rw [if_pos least] at parts
      by_cases none : @unpackMantissa Format.binary64 x.toModel.toBits.toBitVec = 0#_
      · rw [dif_pos none] at parts
        cases parts
      · rw [dif_neg none] at parts
        injection parts with _ mantissa exponent
        refine ⟨by omega, Or.inr ?_⟩
        rw [← exponent, least]
        rfl
    · rw [if_neg least] at parts
      injection parts with _ mantissa exponent
      rw [← mantissa]
      exact ⟨by omega, Or.inl (by omega)⟩

-- What the numbers of a word have in common: a full mantissa and a fraction of less than 53 bits.
structure IsWord (s : Scaled) (n places : Nat) : Prop where
  exponent : s.exponent = -(places : Int)
  mantissa : s.mantissa = n * 2 ^ places
  full : 2 ^ 52 ≤ s.mantissa
  bounded : s.mantissa < 2 ^ 53
  positive : 0 < n
  small : n < 2 ^ 32

theorem parts_word (x : Float) (s : Scaled) (parts : Scaled.ofFloat? x = some s)
    (whole : s.isWhole = true) (small : s.whole < 2 ^ 32) (nonzero : s.mantissa ≠ 0) :
    ∃ places, IsWord s s.whole places := by
  have bounds : s.mantissa < 2 ^ 53 ∧ (2 ^ 52 ≤ s.mantissa ∨ s.exponent = -1074) := by
    rw [Scaled.ofFloat?] at parts
    split at parts
    · rename_i sign m e pos found
      cases parts
      exact unpack_bounds x sign m e pos found
    · cases parts
      exact absurd rfl nonzero
    · cases parts
  have fractional : s.exponent < 0 := by
    by_contra at_least
    rw [Scaled.whole, if_neg at_least, Nat.shiftLeft_eq] at small
    have scale : 1 ≤ 2 ^ s.exponent.toNat := Nat.one_le_two_pow
    have grown : s.mantissa * 1 ≤ s.mantissa * 2 ^ s.exponent.toNat := Nat.mul_le_mul_left _ scale
    omega
  have exact_part : s.mantissa % 2 ^ (-s.exponent).toNat = 0 := by
    rw [Scaled.isWhole, Bool.or_eq_true, decide_eq_true_iff, beq_iff_eq] at whole
    rcases whole with positive | exact_part
    · omega
    · exact exact_part
  have product : s.mantissa = s.whole * 2 ^ (-s.exponent).toNat := by
    rw [Scaled.whole, if_pos fractional, Nat.shiftRight_eq_div_pow]
    exact (Nat.div_mul_cancel (Nat.dvd_of_mod_eq_zero exact_part)).symm
  have positive : 0 < s.whole := by
    rcases Nat.eq_zero_or_pos s.whole with none | some
    · rw [none, Nat.zero_mul] at product
      exact absurd product nonzero
    · exact some
  refine ⟨(-s.exponent).toNat, by omega, product, ?_, bounds.1, positive, small⟩
  rcases bounds.2 with full | least
  · exact full
  · have scale : 2 ^ 53 ≤ 2 ^ (-s.exponent).toNat := Nat.pow_le_pow_right (by decide) (by omega)
    have grown : 1 * 2 ^ (-s.exponent).toNat ≤ s.whole * 2 ^ (-s.exponent).toNat :=
      Nat.mul_le_mul_right _ positive
    omega

theorem word_places (s : Scaled) (n places : Nat) (word : IsWord s n places) :
    21 ≤ places ∧ places ≤ 52 := by
  have full := word.full
  have bounded := word.bounded
  rw [word.mantissa] at full bounded
  constructor
  · by_contra few
    have scale : 2 ^ places ≤ 2 ^ 20 := Nat.pow_le_pow_right (by decide) (by omega)
    have product := Nat.mul_le_mul (Nat.le_of_lt word.small) scale
    have strict : n * 2 ^ places < 2 ^ 32 * 2 ^ places :=
      Nat.mul_lt_mul_of_pos_right word.small (by positivity)
    have most : 2 ^ 32 * 2 ^ places ≤ 2 ^ 32 * 2 ^ 20 := Nat.mul_le_mul_left _ scale
    omega
  · by_contra many
    have scale : 2 ^ 53 ≤ 2 ^ places := Nat.pow_le_pow_right (by decide) (by omega)
    have grown : 1 * 2 ^ places ≤ n * 2 ^ places := Nat.mul_le_mul_right _ word.positive
    omega

theorem word_leading (s : Scaled) (n places : Nat) (word : IsWord s n places) :
    ∃ leading : Nat, leadingExponent s = leading ∧ leading ≤ 10 := by
  have places_bound := word_places s n places word
  have log : s.mantissa.log2 = 52 := by
    have positive : s.mantissa ≠ 0 := by
      have full := word.full
      omega
    exact (Nat.log2_eq_iff positive).mpr ⟨word.full, word.bounded⟩
  have guess : 0 ≤ exponentGuess s ∧ exponentGuess s ≤ 9 := by
    rw [exponentGuess, log, word.exponent]
    omega
  rw [leadingExponent]
  dsimp only
  split
  · exact ⟨(exponentGuess s + 1).toNat, by omega, by omega⟩
  · exact ⟨(exponentGuess s).toNat, by omega, by omega⟩

-- On a grid of powers of ten the only neighbour of a whole number that rounds to it is itself.
theorem word_on_grid (s : Scaled) (n places grid : Nat) (word : IsWord s n places) :
    nearestOnGrid? s (grid : Int) = if 10 ^ grid ∣ n then some (n / 10 ^ grid) else none := by
  have cut (quarters : Nat) :
      tenfold (fraction quarters (s.exponent - 2)).1 (fraction quarters (s.exponent - 2)).2
        (-(grid : Int)) = (quarters, 2 ^ (places + 2) * 10 ^ grid) := by
    have negative : ¬ 0 ≤ s.exponent - 2 := by
      rw [word.exponent]
      omega
    have denominator : (-(s.exponent - 2)).toNat = places + 2 := by
      rw [word.exponent]
      omega
    rw [fraction, if_neg negative, denominator, Nat.one_shiftLeft, tenfold]
    by_cases units : 0 ≤ -(grid : Int)
    · have zero : grid = 0 := by omega
      simp [zero]
    · rw [if_neg units, Int.neg_neg, Int.toNat_natCast]
      rfl
  have scale : 8 ≤ 2 ^ (places + 2) := by
    have places_bound := word_places s n places word
    have at_least : 2 ^ 3 ≤ 2 ^ (places + 2) := Nat.pow_le_pow_right (by decide) (by omega)
    omega
  have power : 0 < 10 ^ grid := by positivity
  have quarters : 4 * s.mantissa = n * 2 ^ (places + 2) := by
    rw [word.mantissa]
    ring
  have floor : 4 * s.mantissa / (2 ^ (places + 2) * 10 ^ grid) = n / 10 ^ grid := by
    rw [quarters, Nat.mul_comm n, Nat.mul_div_mul_left _ _ (by omega)]
  have within : (reach s).1 ≤ 2 ∧ 1 ≤ (reach s).1 ∧ (reach s).2 = 2 := by
    rw [reach]
    split <;> decide
  obtain ⟨below, above, reaches⟩ : ∃ below above, reach s = (below, above) := ⟨_, _, rfl⟩
  rw [reaches] at within
  obtain ⟨most, least, rfl⟩ := within
  have above_number : n * 2 ^ (places + 2) + 2 < (n / 10 ^ grid + 1) * (2 ^ (places + 2) * 10 ^ grid) := by
    have next : n + 1 ≤ (n / 10 ^ grid + 1) * 10 ^ grid := by
      rw [Nat.add_mul, Nat.one_mul, Nat.mul_comm]
      have divided := Nat.div_add_mod n (10 ^ grid)
      have rest := Nat.mod_lt n power
      omega
    have scaled := Nat.mul_le_mul_left (2 ^ (places + 2)) next
    calc n * 2 ^ (places + 2) + 2 < 2 ^ (places + 2) * (n + 1) := by
          rw [Nat.mul_add, Nat.mul_comm]
          omega
      _ ≤ 2 ^ (places + 2) * ((n / 10 ^ grid + 1) * 10 ^ grid) := scaled
      _ = (n / 10 ^ grid + 1) * (2 ^ (places + 2) * 10 ^ grid) := by ring
  have below_number : n / 10 ^ grid * (2 ^ (places + 2) * 10 ^ grid) + 2 ^ (places + 2) * (n % 10 ^ grid) =
      n * 2 ^ (places + 2) := by
    calc n / 10 ^ grid * (2 ^ (places + 2) * 10 ^ grid) + 2 ^ (places + 2) * (n % 10 ^ grid) =
          2 ^ (places + 2) * (10 ^ grid * (n / 10 ^ grid) + n % 10 ^ grid) := by ring
      _ = n * 2 ^ (places + 2) := by rw [Nat.div_add_mod, Nat.mul_comm]
  rw [nearestOnGrid?, reaches]
  dsimp only
  simp only [cut, floor]
  rw [quarters]
  generalize n / 10 ^ grid * (2 ^ (places + 2) * 10 ^ grid) = lower at below_number
  generalize (n / 10 ^ grid + 1) * (2 ^ (places + 2) * 10 ^ grid) = higher at above_number
  have not_high : (higher == n * 2 ^ (places + 2) + 2) = false := beq_eq_false_iff_ne.mpr (by omega)
  rw [decide_eq_false (Nat.not_lt.mpr (Nat.le_of_lt above_number)), not_high, Bool.and_false,
    Bool.or_false, Bool.and_false]
  have number_scaled : 1 * 2 ^ (places + 2) ≤ n * 2 ^ (places + 2) :=
    Nat.mul_le_mul_right _ word.positive
  by_cases exact_part : 10 ^ grid ∣ n
  · rw [Nat.mod_eq_zero_of_dvd exact_part, Nat.mul_zero, Nat.add_zero] at below_number
    rw [decide_eq_true (by omega), if_pos exact_part]
    rfl
  · have positive : 0 < n % 10 ^ grid := Nat.pos_of_ne_zero fun zero =>
      exact_part (Nat.dvd_of_mod_eq_zero zero)
    have rest : 2 ^ (places + 2) * 1 ≤ 2 ^ (places + 2) * (n % 10 ^ grid) :=
      Nat.mul_le_mul_left _ positive
    have not_low : (n * 2 ^ (places + 2) - below == lower) = false := beq_eq_false_iff_ne.mpr (by omega)
    rw [decide_eq_false (by omega), not_low, Bool.and_false, Bool.or_false, if_neg exact_part]
    rfl

-- A decimal that stands for a natural number: its exponent adds zeros.
def Decimal.Spells (d : Decimal) (n : Nat) : Prop :=
  ∃ tail : Nat, d.exponent = tail ∧ d.digits * 10 ^ tail = n

theorem first_hit_spells (s : Scaled) (n places leading : Nat) (word : IsWord s n places) :
    ∀ fuel count : Nat, count ≤ leading + 1 → leading + 2 ≤ fuel + count →
      (firstHit s leading fuel count).Spells n := by
  intro fuel
  induction fuel with
  | zero =>
    intro count most least
    omega
  | succ fuel hyp =>
    intro count most least
    have grid : (leading : Int) - count + 1 = ((leading + 1 - count : Nat) : Int) := by omega
    rw [firstHit, grid, word_on_grid s n places _ word]
    by_cases divides : 10 ^ (leading + 1 - count) ∣ n
    · rw [if_pos divides]
      exact ⟨leading + 1 - count, rfl, Nat.div_mul_cancel divides⟩
    · rw [if_neg divides]
      have unfinished : count ≠ leading + 1 := by
        intro last
        rw [last, Nat.sub_self] at divides
        exact divides (one_dvd n)
      exact hyp (count + 1) (by omega) (by omega)

theorem strip_zeros_spells (n fuel : Nat) :
    ∀ d : Decimal, d.Spells n → (stripZeros fuel d).Spells n := by
  induction fuel with
  | zero => exact fun d spells => spells
  | succ fuel hyp =>
    intro d spells
    obtain ⟨digits, exponent⟩ := d
    rw [stripZeros]
    by_cases last : digits ≠ 0 ∧ digits % 10 = 0
    · rw [if_pos last]
      apply hyp
      obtain ⟨tail, exponents, product⟩ := spells
      dsimp only at exponents product
      refine ⟨tail + 1, by dsimp only; omega, ?_⟩
      dsimp only
      rw [Nat.pow_succ', ← Nat.mul_assoc, Nat.div_mul_cancel (Nat.dvd_of_mod_eq_zero last.2), product]
    · rw [if_neg last]
      exact spells

theorem digits_append_zeros (digits tail : Nat) (positive : 0 < digits) :
    Nat.toDigits 10 digits ++ zeros tail = Nat.toDigits 10 (digits * 10 ^ tail) := by
  induction tail with
  | zero => simp [zeros]
  | succ tail hyp =>
    have grown : 0 < digits * 10 ^ tail := by positivity
    have zero : Nat.toDigits 10 0 = ['0'] := Nat.toDigits_zero 10
    rw [zeros, List.replicate_succ', ← List.append_assoc, ← zeros, hyp, ← zero,
      Nat.toDigits_append_toDigits (by decide) grown (by decide)]
    congr 1
    ring

theorem spelled_text (d : Decimal) (n : Nat) (positive : 0 < n) (small : n < 2 ^ 32)
    (spells : d.Spells n) : d.text = Nat.toDigits 10 n := by
  obtain ⟨tail, exponent, product⟩ := spells
  have digits_positive : 0 < d.digits := by
    rcases Nat.eq_zero_or_pos d.digits with none | some
    · rw [none, Nat.zero_mul] at product
      omega
    · exact some
  have text := digits_append_zeros d.digits tail digits_positive
  have size : (Nat.toDigits 10 n).length ≤ 10 :=
    (Nat.length_toDigits_le_iff (by decide) (by decide)).mpr (by omega)
  rw [product] at text
  have bound : (Nat.toDigits 10 d.digits).length + tail ≤ 10 := by
    rw [← text, List.length_append, zeros, List.length_replicate] at size
    exact size
  rw [Decimal.text, layout, exponent]
  dsimp only
  rw [if_pos (by omega), ← text]
  congr 2
  omega

theorem word_text (x : Float) (s : Scaled) (parts : Scaled.ofFloat? x = some s)
    (whole : s.isWhole = true) (small : s.whole < 2 ^ 32) (sign : s.negative = false)
    (nonzero : s.mantissa ≠ 0) : (text x).toList = Nat.toDigits 10 s.whole := by
  obtain ⟨places, word⟩ := parts_word x s parts whole small nonzero
  obtain ⟨leading, found, most⟩ := word_leading s s.whole places word
  have spells : (shortest s).Spells s.whole := by
    rw [shortest, found]
    exact strip_zeros_spells _ _ _ (first_hit_spells s s.whole places leading word 17 1
      (by omega) (by omega))
  rw [text, parts]
  dsimp only
  rw [if_neg nonzero, sign, String.toList_ofList, if_neg Bool.false_ne_true]
  exact spelled_text _ _ word.positive word.small spells

end Number

/-! The index that decimal digits name. -/

theorem digits_value (cs : List Char) : Number.digitsValue cs = Nat.ofDigitChars 10 cs 0 := by
  rw [Number.digitsValue, Nat.ofDigitChars_eq_foldl]
  congr 1
  funext value c
  rw [Nat.mul_comm]
  rfl

theorem digits_value_append (cs ds : List Char) :
    Number.digitsValue (cs ++ ds) = Number.digitsValue cs * 10 ^ ds.length + Number.digitsValue ds := by
  rw [digits_value, digits_value, digits_value, Nat.ofDigitChars_append, Nat.ofDigitChars_eq_ofDigitChars_zero,
    Nat.mul_comm]

theorem digit_width (c : Char) (digit : c.isDigit = true) : c.utf8Size = 1 := by
  rw [Char.isDigit, Bool.and_eq_true, decide_eq_true_iff, decide_eq_true_iff] at digit
  have most : c.val.toNat ≤ 57 := digit.2
  rw [Char.utf8Size, if_pos]
  change c.val.toNat ≤ 127
  omega

theorem narrow_size (cs : List Char) (narrow : ∀ c ∈ cs, c.utf8Size = 1) :
    (String.ofList cs).utf8ByteSize = cs.length := by
  induction cs with
  | nil => rfl
  | cons c rest hyp =>
    have width := narrow c (List.mem_cons_self ..)
    have tail := hyp fun d member => narrow d (List.mem_cons_of_mem c member)
    rw [String.ofList_cons, String.utf8ByteSize_append, String.utf8ByteSize_singleton, width, tail,
      List.length_cons, Nat.add_comm]

theorem digits_size (cs : List Char) (digits : ∀ c ∈ cs, c.isDigit = true) :
    (String.ofList cs).utf8ByteSize = cs.length :=
  narrow_size cs fun c member => digit_width c (digits c member)

theorem head_digit (n : Nat) (positive : 0 < n) : (Nat.toDigits 10 n).head? ≠ some '0' := by
  induction n using Nat.strongRecOn with
  | _ n hyp =>
    by_cases single : n < 10
    · have digit : ∀ k < 10, 0 < k → some k.digitChar ≠ some '0' := by decide
      rw [Nat.toDigits_of_lt_base single]
      exact digit n single positive
    · have head := hyp (n / 10) (by omega) (by omega)
      rw [Nat.toDigits_of_base_le (by decide) (by omega), List.head?_append]
      cases found : (Nat.toDigits 10 (n / 10)).head? with
      | none => exact absurd (List.head?_eq_none_iff.mp found) Nat.toDigits_ne_nil
      | some first =>
        rw [found] at head
        exact head

theorem leading_digit (n : Nat) (rest : List Char) (digits : Nat.toDigits 10 n = '0' :: rest) :
    rest = [] := by
  rcases Nat.eq_zero_or_pos n with zero | positive
  · rw [zero, Nat.toDigits_zero] at digits
    injection digits with _ none
    exact none.symm
  · have head := head_digit n positive
    rw [digits] at head
    exact absurd rfl head

theorem index_bound_value : indexBound = 4294967295 := by
  rfl

theorem array_index_digits (n : Nat) (small : n < indexBound) :
    arrayIndex? (String.ofList (Nat.toDigits 10 n)) = some n := by
  have digits : ∀ c ∈ Nat.toDigits 10 n, c.isDigit = true := fun c member =>
    Nat.isDigit_of_mem_toDigits (by decide) (by decide) member
  have size : (Nat.toDigits 10 n).length ≤ 10 := by
    rw [index_bound_value] at small
    exact (Nat.length_toDigits_le_iff (by decide) (by decide)).mpr (by omega)
  have value : (decimal? (Nat.toDigits 10 n)).filter (· < indexBound) = some n := by
    have all_digits : (Nat.toDigits 10 n).all Char.isDigit = true := List.all_eq_true.mpr digits
    have number : decimal? (Nat.toDigits 10 n) = some n := by
      rw [decimal?]
      · rw [if_pos all_digits, digits_value, Nat.ofDigitChars_ten_toDigits]
      · exact Nat.toDigits_ne_nil
    rw [number, Option.filter_some_pos (by simpa using small)]
  rw [arrayIndex?, digits_size _ digits, if_neg (by omega), String.toList_ofList]
  split
  · rename_i second rest found
    exact absurd (leading_digit n _ found) (List.cons_ne_nil second rest)
  · exact value

theorem index_number_key (x : Float) (key : PropertyKey)
    (index : PropertyKey.ofIndexNumber? x = some key) : PropertyKey.ofString (Number.text x) = key := by
  rw [PropertyKey.ofIndexNumber?] at index
  split at index
  · rename_i s parts
    split at index
    · rename_i conditions
      injection index with index
      rw [Bool.and_eq_true, Bool.and_eq_true, Bool.or_eq_true, decide_eq_true_iff, beq_iff_eq]
        at conditions
      obtain ⟨⟨whole, signs⟩, small⟩ := conditions
      have digits : Number.text x = String.ofList (Nat.toDigits 10 s.whole) := by
        by_cases zero : s.mantissa = 0
        · have none : s.whole = 0 := by
            rw [Number.Scaled.whole, zero]
            split <;> simp
          rw [Number.text, parts, none]
          dsimp only
          rw [if_pos zero, Nat.toDigits_zero]
        · have sign : s.negative = false := by
            rcases signs with none | sign
            · exact absurd none zero
            · simpa using sign
          rw [index_bound_value] at small
          have text := Number.word_text x s parts whole (by omega) sign zero
          rw [← text, String.ofList_toList]
      rw [PropertyKey.ofString, digits, array_index_digits _ small, ← index]
    · cases index
  · cases index

/-! Keys and their texts. -/

theorem digit_spelled (c : Char) (digit : c.isDigit = true) :
    Nat.ofDigitChars 10 [c] 0 < 10 ∧ Nat.toDigits 10 (Nat.ofDigitChars 10 [c] 0) = [c] := by
  rw [Char.isDigit, Bool.and_eq_true, decide_eq_true_iff, decide_eq_true_iff] at digit
  have least : 48 ≤ c.toNat := digit.1
  have most : c.toNat ≤ 57 := digit.2
  have value : Nat.ofDigitChars 10 [c] 0 = c.toNat - 48 := by
    simp [Nat.ofDigitChars]
  have all : ∀ n < 10, Nat.digitChar n = Char.ofNat (48 + n) := by decide
  have below : c.toNat - 48 < 10 := by omega
  rw [value, Nat.toDigits_of_lt_base below, all _ below, Nat.add_sub_cancel' least, Char.ofNat_toNat]
  exact ⟨below, rfl⟩

-- Digits without a leading zero are those of the number that they spell.
theorem digits_spelled (cs : List Char) (digits : ∀ c ∈ cs, c.isDigit = true) (some' : cs ≠ [])
    (leading : ∀ rest, cs = '0' :: rest → rest = []) : Nat.toDigits 10 (Nat.ofDigitChars 10 cs 0) = cs := by
  induction cs using List.reverseRecOn with
  | nil => exact absurd rfl some'
  | append_singleton front c hyp =>
    obtain ⟨below, last⟩ := digit_spelled c (digits c (by simp))
    cases front with
    | nil => exact last
    | cons first rest =>
      have other : first ≠ '0' := by
        rintro rfl
        exact absurd (leading _ rfl) (by simp)
      have shorter := hyp (fun d member => digits d (List.mem_append_left _ member)) (List.cons_ne_nil _ _)
        fun rest' same => absurd (List.cons.inj same).1 other
      have positive : 0 < Nat.ofDigitChars 10 (first :: rest) 0 := by
        rw [Nat.pos_iff_ne_zero]
        intro zero
        rw [zero, Nat.toDigits_zero] at shorter
        exact other (List.cons.inj shorter).1.symm
      have value : Nat.ofDigitChars 10 (first :: rest ++ [c]) 0 =
          10 * Nat.ofDigitChars 10 (first :: rest) 0 + Nat.ofDigitChars 10 [c] 0 := by
        rw [Nat.ofDigitChars_append]
        simp [Nat.ofDigitChars]
      rw [value, ← Nat.toDigits_append_toDigits (by decide) positive below, shorter, last]

theorem array_index_text (s : String) (i : Nat) (index : arrayIndex? s = some i) : s.toList = Nat.toDigits 10 i := by
  rw [arrayIndex?] at index
  split at index
  · cases index
  · split at index
    · cases index
    · next cs leading =>
      rw [Option.filter_eq_some_iff] at index
      obtain ⟨number, _⟩ := index
      rw [decimal?.eq_def] at number
      split at number
      · cases number
      · next some' =>
        split at number
        · next digits =>
          rw [← Option.some.inj number, digits_value, digits_spelled _ (List.all_eq_true.mp digits) some']
          intro rest same
          cases rest with
          | nil => rfl
          | cons next rest => exact absurd same (leading next rest)
        · cases number

-- Texts of keys are all that tells keys apart.
theorem key_of_text (a b : String) (same : PropertyKey.ofString a = PropertyKey.ofString b) : a = b := by
  rw [PropertyKey.ofString, PropertyKey.ofString] at same
  cases first : arrayIndex? a with
  | some i =>
    cases second : arrayIndex? b with
    | some j =>
      rw [first, second] at same
      obtain rfl : i = j := PropertyKey.index.inj same
      exact String.ext ((array_index_text a i first).trans (array_index_text b i second).symm)
    | none =>
      rw [first, second] at same
      cases same
  | none =>
    cases second : arrayIndex? b with
    | some j =>
      rw [first, second] at same
      cases same
    | none =>
      rw [first, second] at same
      exact PropertyKey.name.inj same

end Ecma
