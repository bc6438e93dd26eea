import Ecma.Proofs.Number.IndexText

set_option autoImplicit false

/-!
Keys and the texts that name them. A text that is the decimal form of an array index is kept as that index and every
other text as itself, so that a key has one form: its text gives the key back, and two texts give one key only when
they are the same.
-/

namespace Ecma

open Number (digitsValue)

/-! Decimal forms. -/

/-- The decimal form of a number: digits that spell it, with no zero in front unless that is all. -/
structure DecimalForm (cs : List Char) (n : Nat) : Prop where
  digits : ∀ c ∈ cs, c.isDigit = true
  nonempty : cs ≠ []
  leading : ∀ rest, cs = '0' :: rest → rest = []
  value : digitsValue cs = n

theorem decimal_form_iff (cs : List Char) (n : Nat) : DecimalForm cs n ↔ cs = Nat.toDigits 10 n := by
  constructor
  · rintro ⟨digits, nonempty, leading, rfl⟩
    rw [digits_value, digits_spelled cs digits nonempty leading]
  · rintro rfl
    exact ⟨fun c member => Nat.isDigit_of_mem_toDigits (by decide) (by decide) member, Nat.toDigits_ne_nil,
      leading_digit n, by rw [digits_value, Nat.ofDigitChars_ten_toDigits]⟩

theorem text_of_number (n : Nat) : (toString n).toList = Nat.toDigits 10 n :=
  String.toList_ofList

theorem number_decimal_form (n : Nat) : DecimalForm (toString n).toList n :=
  (decimal_form_iff _ n).mpr (text_of_number n)

/-- Digits spell less than the power of ten of their number, so that up to ten of them fit a word of 64 bits. -/
theorem digits_value_less (cs : List Char) (digits : ∀ c ∈ cs, c.isDigit = true) : digitsValue cs < 10 ^ cs.length := by
  induction cs using List.reverseRecOn with
  | nil => decide
  | append_singleton front c hyp =>
    have shorter := hyp fun d member => digits d (List.mem_append_left _ member)
    have last := (digit_spelled c (digits c (by simp))).1
    rw [digits_value_append, digits_value [c], List.length_append, List.length_singleton, Nat.pow_succ]
    omega

/-! Indices. -/

theorem array_index_small (s : String) (i : Nat) (index : arrayIndex? s = some i) : i < indexBound := by
  rw [arrayIndex?] at index
  split at index
  · cases index
  · split at index
    · cases index
    · simpa using (Option.filter_eq_some_iff.mp index).2

/-- A text names an array index exactly when it is the decimal form of one. -/
theorem array_index_iff (s : String) (i : Nat) :
    arrayIndex? s = some i ↔ DecimalForm s.toList i ∧ i < indexBound := by
  rw [decimal_form_iff]
  constructor
  · exact fun index => ⟨array_index_text s i index, array_index_small s i index⟩
  · rintro ⟨text, small⟩
    rw [← array_index_digits i small, ← text, String.ofList_toList]

theorem accumulated_fits (s : String) (n : Nat) (short : s.utf8ByteSize ≤ 10) (number : decimal? s.toList = some n) :
    n < 2 ^ 64 := by
  rw [decimal?.eq_def] at number
  split at number
  · cases number
  · split at number
    · next digits =>
      have digits := List.all_eq_true.mp digits
      have size := digits_size s.toList digits
      have less := digits_value_less s.toList digits
      rw [String.ofList_toList] at size
      have most : 10 ^ s.toList.length ≤ 10 ^ 10 := Nat.pow_le_pow_right (by decide) (by omega)
      rw [← Option.some.inj number]
      omega
    · cases number

/-! Keys. -/

namespace PropertyKey

/-- The keys that are made from texts and numbers. -/
inductive Made : PropertyKey → Prop
  | string (s : String) : Made (ofString s)
  | number (n : Nat) : Made (ofNat n)

theorem text_of_string (s : String) : (ofString s).text = s := by
  rw [ofString]
  cases index : arrayIndex? s with
  | none => rfl
  | some i => exact String.ext ((text_of_number i).trans (array_index_text s i index).symm)

theorem of_number (n : Nat) : ofNat n = ofString (toString n) := by
  rw [ofNat, ofString]
  split
  · next small => rw [(array_index_iff _ n).mpr ⟨number_decimal_form n, small⟩]
  · next large =>
    cases index : arrayIndex? (toString n) with
    | none => rfl
    | some i =>
      obtain ⟨form, small⟩ := (array_index_iff _ i).mp index
      have same := form.value.symm.trans (number_decimal_form n).value
      exact absurd (same ▸ small) large

theorem made_from_text (key : PropertyKey) (made : Made key) : ofString key.text = key := by
  cases made with
  | string s => rw [text_of_string]
  | number n => rw [of_number, text_of_string]

/-- Keys are canonical: texts, numbers and keys name each other in one way only. -/
theorem keys_canonical :
    (∀ (s : String) (i : Nat), arrayIndex? s = some i ↔ DecimalForm s.toList i ∧ i < 2 ^ 32 - 1) ∧
      (∀ (s : String) (n : Nat), s.utf8ByteSize ≤ 10 → decimal? s.toList = some n → n < 2 ^ 64) ∧
      (∀ s : String, (ofString s).text = s) ∧
      (∀ n : Nat, DecimalForm (toString n).toList n ∧ ofNat n = ofString (toString n)) ∧
      (∀ key : PropertyKey, Made key → ofString key.text = key) ∧
      ∀ s t : String, ofString s = ofString t ↔ s = t :=
  ⟨array_index_iff, accumulated_fits, text_of_string, fun n => ⟨number_decimal_form n, of_number n⟩, made_from_text,
    fun s t => ⟨key_of_text s t, congrArg ofString⟩⟩

end PropertyKey

end Ecma
