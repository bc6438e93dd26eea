import Ecma.Number.Text
import Ecma.Proofs.Number.Literal
import Ecma.Proofs.Number.Shortest

set_option autoImplicit false

/-!
The text of a number. Digits d1 d2 ... dk and an exponent e stand for d1.d2...dk * 10^e. The text that is laid out for
them is a decimal that denotes just that number, in the form that its magnitude asks for, and no other digits and no
other exponent have this text. The text of a number is the layout of its shortest digits, behind a minus when it is
negative, and it is read as the same number; only zeroes lose their sign.
-/

namespace Ecma.Number

open Float.Model UnpackedFloat

/-- Digits without a zero in front, and without one at the end unless that is all. -/
structure Significand (digits : List Char) : Prop where
  all : Digits digits
  nonempty : digits ≠ []
  leading : digits.length = 1 ∨ digits.head? ≠ some '0'
  trailing : digits.length = 1 ∨ digits.getLast? ≠ some '0'

/-- The number d1.d2...dk * 10^e. -/
def denoted (digits : List Char) (e : Int) : ℚ :=
  digitsValue digits * 10 ^ (e - digits.length + 1)

/-- An exponent that always carries its sign. -/
inductive SignedExponent : List Char → Int → Prop
  | plus (n : Nat) : SignedExponent ('e' :: '+' :: Nat.toDigits 10 n) n
  | minus (n : Nat) (nonzero : 0 < n) : SignedExponent ('e' :: '-' :: Nat.toDigits 10 n) (-(n : Int))

/-- The form of a number by its magnitude: an integer of at most twenty-one digits, a decimal fraction, a fraction with
up to five zeros after the point, and in all other cases one digit before the point and an exponent. -/
inductive Shape (digits : List Char) (e : Int) : List Char → Prop
  | integer (count : Nat) (ends : e + 1 = digits.length + count) (near : e < 21) : Shape digits e (digits ++ zeros count)
  | pointed (whole fraction : List Char) (split : digits = whole ++ fraction) (place : e + 1 = whole.length)
      (before : whole ≠ []) (after : fraction ≠ []) (near : e < 21) : Shape digits e (whole ++ '.' :: fraction)
  | small (count : Nat) (place : e + 1 = -(count : Int)) (near : -7 < e) :
      Shape digits e ('0' :: '.' :: (zeros count ++ digits))
  | single (first : Char) (exponent : List Char) (split : digits = [first]) (far : e ≤ -7 ∨ 21 ≤ e)
      (signed : SignedExponent exponent e) : Shape digits e (first :: exponent)
  | several (first : Char) (rest exponent : List Char) (split : digits = first :: rest) (after : rest ≠ [])
      (far : e ≤ -7 ∨ 21 ≤ e) (signed : SignedExponent exponent e) :
      Shape digits e (first :: '.' :: (rest ++ exponent))

/-! The form of the layout. -/

theorem signed_exponent (e : Int) :
    SignedExponent ('e' :: (if e < 0 then '-' else '+') :: (toString e.natAbs).toList) e := by
  rw [text_of_number]
  by_cases negative : e < 0
  · have same : e = -(e.natAbs : Int) := by
      omega
    rw [if_pos negative]
    nth_rewrite 2 [same]
    exact .minus _ (by omega)
  · have same : e = (e.natAbs : Int) := by
      omega
    rw [if_neg negative]
    nth_rewrite 2 [same]
    exact .plus _

theorem layout_shape (digits : List Char) (e : Int) (nonempty : digits ≠ []) :
    Shape digits e (layout digits (e + 1)) := by
  have positive : 0 < digits.length := List.length_pos_iff.mpr nonempty
  rw [layout]
  dsimp only
  split
  · exact .integer _ (by omega) (by omega)
  · next many =>
    split
    · next near =>
      refine .pointed _ _ (List.take_append_drop (e + 1).toNat digits).symm ?_ ?_ ?_ (by omega)
      · rw [List.length_take]
        omega
      · rw [← List.length_pos_iff, List.length_take]
        omega
      · rw [← List.length_pos_iff, List.length_drop]
        omega
    · next far =>
      split
      · exact .small _ (by omega) (by omega)
      · next far' =>
        rw [Int.add_sub_cancel]
        obtain ⟨first, rest, rfl⟩ := List.exists_cons_of_ne_nil nonempty
        have signed := signed_exponent e
        split
        · next one =>
          obtain rfl : rest = [] := List.length_eq_zero_iff.mp (by simpa using one)
          exact .single first _ rfl (by omega) signed
        · next more =>
          have after : rest ≠ [] := by
            rintro rfl
            exact more rfl
          exact .several first rest _ rfl after (by omega) signed

-- Where the forms meet.
example : layout ['1'] 21 = "100000000000000000000".toList ∧ layout ['1'] 22 = "1e+21".toList ∧
    layout ['1', '5'] (-5) = "0.0000015".toList ∧ layout ['1', '5'] (-6) = "1.5e-7".toList := by
  decide

/-! The number that the layout denotes. -/

theorem number_digits (n : Nat) : Digits (Nat.toDigits 10 n) :=
  fun _ member => Nat.isDigit_of_mem_toDigits (by decide) (by decide) member

theorem signed_exponent_read (exponent : List Char) (e : Int) (signed : SignedExponent exponent e) :
    Exponent exponent e := by
  have value (n : Nat) : digitsValue (Nat.toDigits 10 n) = n := ((decimal_form_iff _ n).mpr rfl).value
  cases signed with
  | plus n =>
    have is := Exponent.marked 'e' ['+'] (Nat.toDigits 10 n) 1 (.inl rfl) .plus (number_digits n) Nat.toDigits_ne_nil
    rwa [value, one_mul] at is
  | minus n nonzero =>
    have is := Exponent.marked 'e' ['-'] (Nat.toDigits 10 n) (-1) (.inl rfl) .minus (number_digits n) Nat.toDigits_ne_nil
    rwa [value, neg_one_mul] at is

theorem zeros_digits (count : Nat) : Digits (zeros count) := by
  intro c member
  rw [List.eq_of_mem_replicate member]
  rfl

theorem zeros_value (count : Nat) : digitsValue (zeros count) = 0 := by
  induction count with
  | zero => rfl
  | succ count hyp =>
    rw [zeros, List.replicate_succ', ← zeros, digits_value_append, hyp, Nat.zero_mul]
    rfl

theorem zeros_length (count : Nat) : (zeros count).length = count :=
  List.length_replicate

/-- The text in parts: an integer has no power of ten, and in all other forms the digits are kept as they are. -/
theorem shape_parts (digits text : List Char) (e : Int) (shape : Shape digits e text) (all : Digits digits)
    (nonempty : digits ≠ []) : (∃ q, Unsigned text q) ∧
      ((∃ count : Nat, e + 1 = digits.length + count ∧ e < 21 ∧ text = digits ++ zeros count ∧
        decimalParts text = (digitsValue digits * 10 ^ count, 0)) ∨
      (e + 1 < digits.length ∨ 21 ≤ e) ∧ decimalParts text = (digitsValue digits, e - digits.length + 1)) := by
  have positive : 0 < digits.length := List.length_pos_iff.mpr nonempty
  cases shape with
  | integer count ends near =>
    have more : Digits (digits ++ zeros count) := fun c member =>
      (List.mem_append.mp member).elim (all c) (zeros_digits count c)
    have parts := whole_parts_read _ [] 0 more .nothing
    have is := Unsigned.decimal _ [] _ 0 (.whole _ more (List.append_ne_nil_of_left_ne_nil nonempty _)) .nothing
    rw [List.append_nil] at parts is
    refine ⟨⟨_, is⟩, .inl ⟨count, ends, near, rfl, ?_⟩⟩
    rw [parts, digits_value_append, zeros_value, zeros_length, Nat.add_zero]
  | pointed whole fraction split place before after near =>
    have front : Digits whole := fun c member => all c (by rw [split]; exact List.mem_append_left _ member)
    have back : Digits fraction := fun c member => all c (by rw [split]; exact List.mem_append_right _ member)
    have parts := pointed_parts_read whole fraction [] 0 front back .nothing
    have is := Unsigned.decimal _ [] _ 0 (.pointed whole fraction front back (.inl before)) .nothing
    rw [List.append_nil] at parts is
    have more : 0 < fraction.length := List.length_pos_iff.mpr after
    have length : digits.length = whole.length + fraction.length := by
      rw [split, List.length_append]
    refine ⟨⟨_, is⟩, .inr ⟨.inl (by omega), ?_⟩⟩
    rw [parts, ← split, Prod.mk.injEq]
    exact ⟨rfl, by omega⟩
  | small count place near =>
    have fraction : Digits (zeros count ++ digits) := fun c member =>
      (List.mem_append.mp member).elim (zeros_digits count c) (all c)
    have front : Digits ['0'] := zeros_digits 1
    have parts := pointed_parts_read ['0'] _ [] 0 front fraction .nothing
    have is := Unsigned.decimal _ [] _ 0 (.pointed ['0'] _ front fraction (.inl (List.cons_ne_nil _ _))) .nothing
    rw [List.append_nil] at parts is
    have value : digitsValue (['0'] ++ (zeros count ++ digits)) = digitsValue digits := by
      rw [digits_value_append, digits_value_append, zeros_value, Nat.zero_mul, Nat.zero_add]
      exact (congrArg (· + _) (Nat.zero_mul _)).trans (Nat.zero_add _)
    refine ⟨⟨_, is⟩, .inr ⟨.inl (by omega), ?_⟩⟩
    refine parts.trans ?_
    rw [value, List.length_append, zeros_length, Prod.mk.injEq]
    exact ⟨rfl, by omega⟩
  | single first exponent split far signed =>
    subst split
    have back := signed_exponent_read exponent e signed
    have parts := whole_parts_read [first] exponent e all back
    have is := Unsigned.decimal _ exponent _ e (.whole _ all nonempty) back
    refine ⟨⟨_, is⟩, .inr ⟨by rw [List.length_singleton]; omega, ?_⟩⟩
    refine parts.trans ?_
    rw [List.length_singleton, Prod.mk.injEq]
    exact ⟨rfl, by omega⟩
  | several first rest exponent split after far signed =>
    subst split
    have back := signed_exponent_read exponent e signed
    have front : Digits [first] := fun c member => all c (List.mem_append_left rest member)
    have fraction : Digits rest := fun c member => all c (List.mem_cons_of_mem first member)
    have parts := pointed_parts_read [first] rest exponent e front fraction back
    have is := Unsigned.decimal _ exponent _ e (.pointed [first] rest front fraction (.inl (List.cons_ne_nil _ _))) back
    rw [List.append_assoc] at is
    refine ⟨⟨_, is⟩, .inr ⟨by rw [List.length_cons]; omega, ?_⟩⟩
    refine parts.trans ?_
    rw [List.length_cons, Prod.mk.injEq]
    exact ⟨rfl, by omega⟩

/-- What is laid out is a decimal and denotes the number that digits and exponent stand for. -/
theorem layout_denotes (digits : List Char) (e : Int) (all : Digits digits) (nonempty : digits ≠ []) :
    Unsigned (layout digits (e + 1)) (denoted digits e) := by
  obtain ⟨⟨q, is⟩, parts⟩ := shape_parts digits _ e (layout_shape digits e nonempty) all nonempty
  have value := unsigned_parts _ q is
  have same : denoted digits e = q := by
    rcases parts with ⟨count, ends, _, _, parts⟩ | ⟨_, parts⟩
    · have power : e - digits.length + 1 = count := by
        omega
      rw [← value, parts, denoted, power]
      push_cast
      rw [mul_one, zpow_natCast]
    · rw [← value, parts, denoted]
  rwa [same]

theorem layout_denotes_only (digits : List Char) (e : Int) (all : Digits digits) (nonempty : digits ≠ []) (q : ℚ) :
    Unsigned (layout digits (e + 1)) q ↔ q = denoted digits e := by
  have is := layout_denotes digits e all nonempty
  exact ⟨fun other => unsigned_unique _ q _ other is, fun same => same ▸ is⟩

theorem leading_least (digits : List Char) (all : Digits digits) (nonempty : digits ≠ [])
    (leading : digits.head? ≠ some '0') : 10 ^ (digits.length - 1) ≤ digitsValue digits := by
  obtain ⟨first, rest, rfl⟩ := List.exists_cons_of_ne_nil nonempty
  have positive : 0 < digitsValue [first] := by
    have form := (digit_spelled first (all first List.mem_cons_self)).2
    rw [← digits_value] at form
    rw [Nat.pos_iff_ne_zero]
    intro zero
    rw [zero, Nat.toDigits_zero] at form
    exact leading (congrArg List.head? form).symm
  have grown := Nat.mul_le_mul_right (10 ^ rest.length) positive
  have value : digitsValue (first :: rest) = digitsValue [first] * 10 ^ rest.length + digitsValue rest :=
    digits_value_append [first] rest
  rw [List.length_cons, Nat.add_sub_cancel]
  omega

/-- The exponent is that of the leading digit. -/
theorem denoted_bounds (digits : List Char) (e : Int) (all : Digits digits) (nonempty : digits ≠ [])
    (leading : digits.head? ≠ some '0') : (10 : ℚ) ^ e ≤ denoted digits e ∧ denoted digits e < 10 ^ (e + 1) := by
  have positive : 0 < digits.length := List.length_pos_iff.mpr nonempty
  have ten : (10 : ℚ) ≠ 0 := by
    norm_num
  have unit : (0 : ℚ) < 10 ^ (e - digits.length + 1) := zpow_pos (by norm_num) _
  have scaled (n : Nat) : ((10 ^ n : Nat) : ℚ) * 10 ^ (e - digits.length + 1) = 10 ^ (n + (e - digits.length + 1)) := by
    rw [zpow_add₀ ten n, zpow_natCast, Nat.cast_pow, Nat.cast_ofNat]
  have least : ((10 ^ (digits.length - 1) : Nat) : ℚ) ≤ digitsValue digits := by
    exact_mod_cast leading_least digits all nonempty leading
  have most : (digitsValue digits : ℚ) < (10 ^ digits.length : Nat) := by
    exact_mod_cast digits_value_less digits all
  have low := mul_le_mul_of_nonneg_right least (le_of_lt unit)
  have high := mul_lt_mul_of_pos_right most unit
  rw [scaled] at low high
  rw [show (digits.length - 1 : Nat) + (e - digits.length + 1) = e by omega] at low
  rw [show (digits.length : Int) + (e - digits.length + 1) = e + 1 by omega] at high
  exact ⟨low, high⟩

/-! Digits and exponent are told by the text. -/

theorem significand_value (digits digits' : List Char) (is : Significand digits) (is' : Significand digits')
    (same : digitsValue digits = digitsValue digits') : digits = digits' := by
  have spelled (cs : List Char) (is : Significand cs) : Nat.toDigits 10 (digitsValue cs) = cs := by
    rw [digits_value]
    refine digits_spelled cs is.all is.nonempty fun rest first => ?_
    subst first
    rcases is.leading with single | other
    · exact List.length_eq_zero_iff.mp (by simpa using single)
    · exact absurd rfl other
  rw [← spelled digits is, ← spelled digits' is', same]

-- Digits that end in no zero are told apart from the zeros behind them.
theorem padding_same (digits digits' : List Char) (count more : Nat) (is : Significand digits)
    (is' : Significand digits') (same : digits ++ zeros count = digits' ++ zeros (more + count)) : more = 0 := by
  have rest : digits = digits' ++ zeros more := by
    rw [zeros, zeros, List.replicate_add, ← List.append_assoc] at same
    exact List.append_cancel_right same
  by_contra nonzero
  obtain ⟨less, rfl⟩ := Nat.exists_eq_succ_of_ne_zero nonzero
  have length := congrArg List.length rest
  have positive : 0 < digits'.length := List.length_pos_iff.mpr is'.nonempty
  rw [List.length_append, zeros_length] at length
  rcases is.trailing with single | other
  · omega
  · rw [rest, zeros, List.replicate_succ', ← List.append_assoc, List.getLast?_concat] at other
    exact other rfl

-- A number of more than twenty-one digits is no integer of fewer digits.
theorem integer_short (digits digits' : List Char) (e e' : Int) (count : Nat) (is' : Significand digits')
    (all : Digits digits) (ends : e + 1 = digits.length + count) (near : e < 21)
    (other : e' + 1 < digits'.length ∨ 21 ≤ e')
    (same : (digitsValue digits * 10 ^ count, (0 : Int)) = (digitsValue digits', e' - digits'.length + 1)) : False := by
  obtain ⟨value, power⟩ := Prod.mk.inj same
  have leading : digits'.head? ≠ some '0' := is'.leading.resolve_left (by omega)
  have least := leading_least digits' is'.all is'.nonempty leading
  have less : digitsValue digits * 10 ^ count < 10 ^ (digits.length + count) := by
    rw [Nat.pow_add]
    exact Nat.mul_lt_mul_of_pos_right (digits_value_less digits all) (by positivity)
  have scale : 10 ^ (digits.length + count) ≤ 10 ^ (digits'.length - 1) := Nat.pow_le_pow_right (by decide) (by omega)
  omega

/-- Different digits or different exponents have different texts. -/
theorem layout_injective (digits digits' : List Char) (e e' : Int) (is : Significand digits) (is' : Significand digits')
    (same : layout digits (e + 1) = layout digits' (e' + 1)) : digits = digits' ∧ e = e' := by
  have left := (shape_parts digits _ e (layout_shape digits e is.nonempty) is.all is.nonempty).2
  have right := (shape_parts digits' _ e' (layout_shape digits' e' is'.nonempty) is'.all is'.nonempty).2
  rw [← same] at right
  rcases left with ⟨count, ends, near, text, parts⟩ | ⟨other, parts⟩
  · rcases right with ⟨count', ends', near', text', parts'⟩ | ⟨other', parts'⟩
    · have padded := text.symm.trans text'
      have length := congrArg List.length padded
      rw [List.length_append, List.length_append, zeros_length, zeros_length] at length
      obtain rfl : count = count' := by
        rcases Nat.le_total count count' with most | most
        · obtain ⟨more, rfl⟩ := Nat.exists_eq_add_of_le' most
          rw [padding_same digits digits' count more is is' padded, Nat.zero_add]
        · obtain ⟨more, rfl⟩ := Nat.exists_eq_add_of_le' most
          rw [padding_same digits' digits count' more is' is padded.symm, Nat.zero_add]
      exact ⟨List.append_cancel_right padded, by omega⟩
    · exact (integer_short digits digits' e e' count is' is.all ends near other' (parts.symm.trans parts')).elim
  · rcases right with ⟨count', ends', near', text', parts'⟩ | ⟨other', parts'⟩
    · exact (integer_short digits' digits e' e count' is is'.all ends' near' other (parts'.symm.trans parts)).elim
    · obtain ⟨value, power⟩ := Prod.mk.inj (parts.symm.trans parts')
      obtain rfl := significand_value digits digits' is is' value
      exact ⟨rfl, by omega⟩

/-! The layout is read as a number. -/

theorem decimal_char_dark (c : Char) (decimal : isDecimalChar c = true) : Ecma.Text.isBlank c = false := by
  simp only [isDecimalChar, Bool.or_eq_true, beq_iff_eq] at decimal
  rcases decimal with ((((digit | rfl) | rfl) | rfl) | rfl) | rfl
  · have digits : ∀ n < 10, Ecma.Text.isBlank (Nat.digitChar n) = false := by
      decide
    obtain ⟨below, form⟩ := digit_spelled c digit
    rw [Nat.toDigits_of_lt_base below] at form
    rw [← (List.cons.inj form).1]
    exact digits _ below
  all_goals rfl

theorem trim_dark (cs : List Char) (dark : ∀ c ∈ cs, Ecma.Text.isBlank c = false) : Ecma.Text.trim cs = cs := by
  have kept (ds : List Char) (dark : ∀ c ∈ ds, Ecma.Text.isBlank c = false) : Ecma.Text.trimStart ds = ds := by
    cases ds with
    | nil => rfl
    | cons c rest => rw [Ecma.Text.trimStart, List.dropWhile_cons, dark c List.mem_cons_self, if_neg Bool.false_ne_true]
  rw [Ecma.Text.trim, kept cs dark, kept cs.reverse fun c member => dark c (List.mem_reverse.mp member),
    List.reverse_reverse]

/-- A text of the characters of decimals is read as a decimal. -/
theorem decimal_text_read (cs : List Char) (chars : ∀ c ∈ cs, isDecimalChar c = true)
    (some' : ∃ c ∈ cs, c.isDigit = true) : ofText (String.ofList cs) = (readDecimal? cs).getD nan := by
  have foreign (c : Char) (member : c ∈ cs) (other : isDecimalChar c = false) : False := by
    rw [chars c member] at other
    cases other
  have letters : cs ≠ "Infinity".toList ∧ cs ≠ "+Infinity".toList ∧ cs ≠ "-Infinity".toList := by
    refine ⟨?_, ?_, ?_⟩ <;> rintro rfl <;> exact foreign 'I' (by decide) rfl
  rw [ofText, String.toList_ofList, trim_dark cs fun c member => decimal_char_dark c (chars c member), readTrimmed.eq_def]
  split
  · obtain ⟨c, member, _⟩ := some'
    cases member
  · exact (foreign 'x' (by simp) rfl).elim
  · exact (foreign 'X' (by simp) rfl).elim
  · rw [if_neg (not_or.mpr ⟨letters.1, letters.2.1⟩), if_neg letters.2.2, List.all_eq_true.mpr chars,
      List.any_eq_true.mpr some']
    rfl

/-- A decimal passes the check of the characters, and its text is read as what it denotes, rounded. -/
theorem unsigned_accepted (body : List Char) (q : ℚ) (is : Unsigned body q) :
    ofText (String.ofList body) = ofDecimal (decimalParts body).1 (decimalParts body).2 := by
  obtain ⟨chars, some'⟩ := unsigned_chars body q is
  rw [decimal_text_read body chars some', unsigned_read body q is, Option.getD_some]

/-- With a minus in front it is read as the negative of that. -/
theorem negative_accepted (body : List Char) (q : ℚ) (is : Unsigned body q) :
    ofText (String.ofList ('-' :: body)) = -ofText (String.ofList body) := by
  obtain ⟨chars, c, member, digit⟩ := unsigned_chars body q is
  have plain : splitSign body = (false, body) := by
    obtain ⟨first, tail, rfl, begins⟩ := unsigned_begins body q is
    refine split_sign_plain _ ?_
    rintro c ⟨rfl⟩
    exact first_no_sign _ begins
  have read := unsigned_read body q is
  have negative : readDecimal? ('-' :: body) = (readDecimal? body).map (-·) := by
    rw [readDecimal?, readDecimal?, plain, splitSign]
    dsimp only
    split
    · rfl
    · rw [Option.map_map]
      rfl
  have chars' : ∀ d ∈ '-' :: body, isDecimalChar d = true := fun d there => by
    rcases List.mem_cons.mp there with rfl | there
    · rfl
    · exact chars d there
  rw [decimal_text_read _ chars' ⟨c, List.mem_cons_of_mem _ member, digit⟩, decimal_text_read body chars ⟨c, member, digit⟩,
    negative, read]
  rfl

/-! The digits of a number. -/

theorem last_digit (n : Nat) (ends : n % 10 ≠ 0) : (Nat.toDigits 10 n).getLast? ≠ some '0' := by
  have nonzero : ∀ d < 10, d ≠ 0 → Nat.digitChar d ≠ '0' := by
    decide
  intro last
  by_cases single : n < 10
  · rw [Nat.toDigits_of_lt_base single] at last
    exact nonzero n single (by omega) (Option.some.inj last)
  · rw [Nat.toDigits_of_base_le (by decide) (by omega), List.getLast?_concat] at last
    exact nonzero _ (Nat.mod_lt n (by decide)) ends (Option.some.inj last)

theorem number_significand (n : Nat) (ends : n % 10 ≠ 0) : Significand (Nat.toDigits 10 n) where
  all := number_digits n
  nonempty := Nat.toDigits_ne_nil
  leading := .inr (head_digit n (by omega))
  trailing := .inr (last_digit n ends)

/-- The text of a decimal is the layout of its digits, with the exponent of the leading one. -/
theorem decimal_text (d : Decimal) : ∃ e : Int, d.text = layout (Nat.toDigits 10 d.digits) (e + 1) ∧
    denoted (Nat.toDigits 10 d.digits) e = d.value := by
  have value : digitsValue (Nat.toDigits 10 d.digits) = d.digits := ((decimal_form_iff _ _).mpr rfl).value
  refine ⟨(Nat.toDigits 10 d.digits).length + d.exponent - 1, ?_, ?_⟩
  · rw [Decimal.text, Int.sub_add_cancel]
  · rw [denoted, value, Decimal.value]
    congr 2
    omega

theorem shortest_text (s : Scaled) (canonical : Canonical s.mantissa s.exponent) :
    ∃ (digits : List Char) (e : Int), Significand digits ∧ digits.head? ≠ some '0' ∧
      (shortest s).text = layout digits (e + 1) ∧ Rounds s (denoted digits e) := by
  obtain ⟨_, _, rounds, ends, _⟩ := shortest_found s canonical
  obtain ⟨e, text, value⟩ := decimal_text (shortest s)
  refine ⟨_, e, number_significand _ ends, head_digit _ (by omega), text, ?_⟩
  rwa [value]

/-! Reading back. -/

/-- The layout of digits is read as the number that their value rounds to. -/
theorem layout_read (s : Scaled) (canonical : Canonical s.mantissa s.exponent) (digits : List Char) (e : Int)
    (is : Significand digits) (rounds : Rounds s (denoted digits e)) :
    (ofText (String.ofList (layout digits (e + 1)))).toModel.unpack =
      .finite .positive s.mantissa s.exponent canonical.positive := by
  have literal := layout_denotes digits e is.all is.nonempty
  have value := unsigned_parts _ _ literal
  have positive : 0 < (decimalParts (layout digits (e + 1))).1 := by
    rcases Nat.eq_zero_or_pos (decimalParts (layout digits (e + 1))).1 with none | some'
    · have least := (rounds_range s _ canonical rounds).1
      have above := two_power_pos (-1075)
      rw [none, Nat.cast_zero, zero_mul] at value
      linarith
    · exact some'
  rw [unsigned_accepted _ _ literal]
  exact decimal_within s _ canonical rounds _ _ positive value.symm

section

variable (x : Float) (m : Nat) (e : Int) (pos : 0 < m)

theorem positive_text (parts : x.toModel.unpack = .finite .positive m e pos) :
    text x = String.ofList (shortest ⟨false, m, e⟩).text := by
  rw [text, Scaled.ofFloat?, parts]
  exact if_neg (Nat.ne_of_gt pos)

theorem negative_text (parts : x.toModel.unpack = .finite .negative m e pos) :
    text x = String.ofList ('-' :: (shortest ⟨true, m, e⟩).text) := by
  rw [text, Scaled.ofFloat?, parts]
  exact if_neg (Nat.ne_of_gt pos)

theorem positive_layout (parts : x.toModel.unpack = .finite .positive m e pos) :
    ∃ (digits : List Char) (k : Int), Significand digits ∧ digits.head? ≠ some '0' ∧
      text x = String.ofList (layout digits (k + 1)) ∧ ofText (text x) = x := by
  have canonical := unpack_canonical x _ m e pos parts
  obtain ⟨digits, k, is, leading, laid, rounds⟩ := shortest_text ⟨false, m, e⟩ canonical
  have text := positive_text x m e pos parts
  rw [laid] at text
  refine ⟨digits, k, is, leading, text, unpack_injective _ _ ?_⟩
  rw [text, parts]
  exact layout_read ⟨false, m, e⟩ canonical digits k is rounds

-- The digits do not depend on the sign.
theorem shortest_signed : shortest ⟨true, m, e⟩ = shortest ⟨false, m, e⟩ := by
  have hit (leading : Int) (fuel count : Nat) :
      firstHit ⟨true, m, e⟩ leading fuel count = firstHit ⟨false, m, e⟩ leading fuel count := by
    induction fuel generalizing count with
    | zero => rfl
    | succ fuel hyp =>
      have same (grid : Int) : nearestOnGrid? ⟨true, m, e⟩ grid = nearestOnGrid? ⟨false, m, e⟩ grid := rfl
      rw [firstHit, firstHit, same]
      split
      · rfl
      · exact hyp (count + 1)
  rw [shortest, shortest, hit]
  rfl

theorem negative_layout (parts : x.toModel.unpack = .finite .negative m e pos) :
    text x = "-" ++ text (-x) ∧ ofText (text x) = x := by
  have parts' := negative_parts x .negative m e pos parts
  change (-x).toModel.unpack = .finite .positive m e pos at parts'
  obtain ⟨digits, k, is, _, laid, read⟩ := positive_layout (-x) m e pos parts'
  have minus : text x = String.ofList ('-' :: layout digits (k + 1)) := by
    have positive := positive_text (-x) m e pos parts'
    rw [laid] at positive
    rw [negative_text x m e pos parts, shortest_signed,
      ← String.toList_ofList (l := (shortest ⟨false, m, e⟩).text), ← positive, String.toList_ofList]
  refine ⟨?_, ?_⟩
  · rw [minus, laid, String.ofList_cons]
    rfl
  · have double : -(-x) = x := unpack_injective _ _ ((negative_parts (-x) .positive m e pos parts').trans parts.symm)
    rw [minus, negative_accepted _ _ (layout_denotes digits k is.all is.nonempty), ← laid, read, double]

end

/-! All numbers. -/

theorem nan_parts : nan.toModel.unpack = .notANumber := by
  rfl

theorem infinity_parts : infinity.toModel.unpack = .infinity .positive := by
  rfl

theorem negative_infinity_parts : (-infinity).toModel.unpack = .infinity .negative := by
  rfl

theorem special_texts : text nan = "NaN" ∧ text infinity = "Infinity" ∧ text (-infinity) = "-Infinity" ∧
    ofText "NaN" = nan ∧ ofText "Infinity" = infinity ∧ ofText "-Infinity" = -infinity := by
  refine ⟨?_, ?_, ?_, ?_, ?_, ?_⟩ <;> rfl

theorem zero_text (x : Float) (zero : (x == 0.0) = true) : text x = "0" ∧ ofText "0" = 0.0 := by
  obtain ⟨s, parts⟩ := (zero_iff x).mp zero
  constructor
  · rw [text, Scaled.ofFloat?, parts]
    rfl
  · exact zero_whole.symm

theorem negative_text_prefixed (x : Float) (negative : x < 0.0) : text x = "-" ++ text (-x) := by
  rw [less_iff, beq_iff_eq, zero_unpacked] at negative
  generalize parts : x.toModel.unpack = p at negative
  match p with
  | .notANumber => cases negative
  | .infinity .positive => cases negative
  | .zero .positive => cases negative
  | .zero .negative => cases negative
  | .finite .positive .. => cases negative
  | .infinity .negative =>
    obtain rfl : x = -infinity := unpack_injective _ _ (parts.trans negative_infinity_parts.symm)
    rfl
  | .finite .negative m e pos => exact (negative_layout x m e pos parts).1

theorem positive_text_laid (x : Float) (positive : 0.0 < x) (finite : x.isFinite = true) :
    ∃ (digits : List Char) (e : Int), Significand digits ∧ digits.head? ≠ some '0' ∧
      text x = String.ofList (layout digits (e + 1)) := by
  rw [less_iff, beq_iff_eq, zero_unpacked] at positive
  change x.toModel.unpack.isFinite = true at finite
  generalize parts : x.toModel.unpack = p at positive finite
  match p with
  | .notANumber => cases finite
  | .infinity _ => cases finite
  | .zero .positive => cases positive
  | .zero .negative => cases positive
  | .finite .negative .. => cases positive
  | .finite .positive m e pos =>
    obtain ⟨digits, k, is, leading, laid, _⟩ := positive_layout x m e pos parts
    exact ⟨digits, k, is, leading, laid⟩

/-- The text of a number is read as this number, and that of a zero as the positive zero. -/
theorem text_read (x : Float) : ofText (text x) = if x == 0.0 then 0.0 else x := by
  have kept (nonzero : ∀ s, x.toModel.unpack ≠ .zero s) (read : ofText (text x) = x) :
      ofText (text x) = if x == 0.0 then 0.0 else x := by
    rw [read, if_neg]
    intro zero
    obtain ⟨s, parts⟩ := (zero_iff x).mp zero
    exact nonzero s parts
  obtain ⟨nanText, infinityText, negativeText, readNan, readInfinity, readNegative⟩ := special_texts
  cases parts : x.toModel.unpack with
  | notANumber =>
    obtain rfl : x = nan := unpack_injective _ _ (parts.trans nan_parts.symm)
    exact kept (by rw [parts]; nofun) (by rw [nanText, readNan])
  | infinity sign =>
    cases sign with
    | positive =>
      obtain rfl : x = infinity := unpack_injective _ _ (parts.trans infinity_parts.symm)
      exact kept (by rw [parts]; nofun) (by rw [infinityText, readInfinity])
    | negative =>
      obtain rfl : x = -infinity := unpack_injective _ _ (parts.trans negative_infinity_parts.symm)
      exact kept (by rw [parts]; nofun) (by rw [negativeText, readNegative])
  | zero sign =>
    have zero := (zero_iff x).mpr ⟨sign, parts⟩
    obtain ⟨text, read⟩ := zero_text x zero
    rw [text, read, if_pos zero]
  | finite sign m e pos =>
    cases sign with
    | positive =>
      obtain ⟨_, _, _, _, _, read⟩ := positive_layout x m e pos parts
      exact kept (by rw [parts]; nofun) read
    | negative => exact kept (by rw [parts]; nofun) (negative_layout x m e pos parts).2

/-- A text passes the check of its characters, is a decimal, and is read as that decimal. -/
def Accepted (cs : List Char) : Prop :=
  (cs.all isDecimalChar && cs.any Char.isDigit) = true ∧ ∃ y, readDecimal? cs = some y ∧ ofText (String.ofList cs) = y

theorem layout_accepted (digits : List Char) (e : Int) (is : Significand digits) : Accepted (layout digits (e + 1)) := by
  have literal := layout_denotes digits e is.all is.nonempty
  obtain ⟨chars, some'⟩ := unsigned_chars _ _ literal
  refine ⟨?_, _, unsigned_read _ _ literal, unsigned_accepted _ _ literal⟩
  rw [List.all_eq_true.mpr chars, List.any_eq_true.mpr some']
  rfl

/--
The text of a number is faithful. What is laid out for digits and an exponent denotes exactly the number that they stand
for, has the form that the magnitude asks for, is accepted as a decimal, and is the text of no other digits and no
other exponent; the texts of positive numbers are laid out so, and those of negative ones have a minus in front. The text
of a number is read as this number, up to the sign of a zero.
-/
theorem number_text_faithful :
    (∀ (digits : List Char) (e : Int), Significand digits →
      (∀ q : ℚ, Unsigned (layout digits (e + 1)) q ↔ q = digitsValue digits * 10 ^ (e - digits.length + 1)) ∧
        Shape digits e (layout digits (e + 1)) ∧
        (digits.head? ≠ some '0' → (10 : ℚ) ^ e ≤ denoted digits e ∧ denoted digits e < 10 ^ (e + 1)) ∧
        Accepted (layout digits (e + 1))) ∧
      (∀ (digits digits' : List Char) (e e' : Int), Significand digits → Significand digits' →
        layout digits (e + 1) = layout digits' (e' + 1) → digits = digits' ∧ e = e') ∧
      (∀ x : Float, 0.0 < x → x.isFinite = true → ∃ (digits : List Char) (e : Int), Significand digits ∧
        digits.head? ≠ some '0' ∧ text x = String.ofList (layout digits (e + 1))) ∧
      (∀ x : Float, x < 0.0 → text x = "-" ++ text (-x)) ∧
      ∀ x : Float, ofText (text x) = if x == 0.0 then 0.0 else x :=
  ⟨fun digits e is => ⟨layout_denotes_only digits e is.all is.nonempty, layout_shape digits e is.nonempty,
      denoted_bounds digits e is.all is.nonempty, layout_accepted digits e is⟩,
    layout_injective, positive_text_laid, negative_text_prefixed, text_read⟩

end Ecma.Number
