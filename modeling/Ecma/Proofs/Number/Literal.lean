import Ecma.Number.Reading
import Ecma.Proofs.Property.Key
import Mathlib.Algebra.Order.Field.Rat
import Mathlib.Data.List.TakeWhile
import Mathlib.Tactic.FieldSimp
import Mathlib.Tactic.Ring

set_option autoImplicit false

/-!
Decimal literals and the numbers that they denote. The number at the start of a text is read off the longest literal
there, and what a literal denotes is what it is read as before that is rounded.
-/

namespace Ecma.Number

/-! The form of literals. -/

def Digits (cs : List Char) : Prop :=
  ∀ c ∈ cs, c.isDigit = true

/-- An optional sign and the factor that it stands for. -/
inductive Signs : List Char → Int → Prop
  | nothing : Signs [] 1
  | plus : Signs ['+'] 1
  | minus : Signs ['-'] (-1)

/-- Digits, or a point with digits before it or after it or both, and their value. -/
inductive Mantissa : List Char → ℚ → Prop
  | whole (whole : List Char) (digits : Digits whole) (nonempty : whole ≠ []) : Mantissa whole (digitsValue whole)
  | pointed (whole fraction : List Char) (digits : Digits whole) (digits' : Digits fraction)
      (nonempty : whole ≠ [] ∨ fraction ≠ []) :
      Mantissa (whole ++ '.' :: fraction) (digitsValue whole + digitsValue fraction / 10 ^ fraction.length)

/-- An optional exponent of at least one digit, and its value. -/
inductive Exponent : List Char → Int → Prop
  | nothing : Exponent [] 0
  | marked (mark : Char) (sign digits : List Char) (factor : Int) (marks : mark = 'e' ∨ mark = 'E')
      (signs : Signs sign factor) (all : Digits digits) (nonempty : digits ≠ []) :
      Exponent (mark :: (sign ++ digits)) (factor * digitsValue digits)

/-- A decimal without a sign and the rational number that it denotes. -/
inductive Unsigned : List Char → ℚ → Prop
  | decimal (mantissa exponent : List Char) (q : ℚ) (k : Int) (front : Mantissa mantissa q)
      (back : Exponent exponent k) : Unsigned (mantissa ++ exponent) (q * 10 ^ k)

/-- A decimal literal. -/
inductive DecimalLiteral : List Char → Prop
  | infinity (sign : List Char) (factor : Int) (signs : Signs sign factor) :
      DecimalLiteral (sign ++ "Infinity".toList)
  | decimal (sign body : List Char) (factor : Int) (q : ℚ) (signs : Signs sign factor) (unsigned : Unsigned body q) :
      DecimalLiteral (sign ++ body)

/-! Digits at the start of a text. -/

/-- A text that no digit begins. -/
def NoDigit (cs : List Char) : Prop :=
  ∀ c ∈ cs.head?, c.isDigit = false

theorem point_no_digit (cs : List Char) : NoDigit ('.' :: cs) := by
  rintro c ⟨rfl⟩
  rfl

theorem take_while_digits (cs rest : List Char) (digits : Digits cs) :
    (cs ++ rest).takeWhile Char.isDigit = cs ++ rest.takeWhile Char.isDigit :=
  List.takeWhile_append_of_pos digits

theorem take_digits (cs rest : List Char) (digits : Digits cs) (ends : NoDigit rest) :
    (cs ++ rest).takeWhile Char.isDigit = cs := by
  have none : rest.takeWhile Char.isDigit = [] := by
    cases rest with
    | nil => rfl
    | cons c rest => rw [List.takeWhile_cons, ends c rfl, if_neg Bool.false_ne_true]
  rw [take_while_digits cs rest digits, none, List.append_nil]

theorem drop_digits (cs rest : List Char) (digits : Digits cs) (ends : NoDigit rest) :
    (cs ++ rest).dropWhile Char.isDigit = rest := by
  have taken := List.takeWhile_append_dropWhile (p := Char.isDigit) (l := cs ++ rest)
  rw [take_digits cs rest digits ends] at taken
  exact List.append_cancel_left taken

/-- The digits that begin a text and what follows them. -/
theorem digits_split (cs : List Char) :
    ∃ digits rest, cs = digits ++ rest ∧ Digits digits ∧ NoDigit rest := by
  refine ⟨cs.takeWhile Char.isDigit, cs.dropWhile Char.isDigit, List.takeWhile_append_dropWhile.symm,
    fun c member => List.mem_takeWhile_imp member, fun c head => ?_⟩
  have last := List.head?_dropWhile_not Char.isDigit cs
  rw [head] at last
  exact Bool.eq_false_iff.mpr (by simpa using last)

/-! The longest literal at the start of a text. -/

theorem mantissa_length_whole (whole rest : List Char) (digits : Digits whole) (ends : NoDigit rest)
    (point : rest.head? ≠ some '.') : mantissaLength (whole ++ rest) = whole.length := by
  rw [mantissaLength, take_digits whole rest digits ends, List.drop_left]
  cases rest with
  | nil => rfl
  | cons c rest =>
    dsimp only
    split
    · next same => exact absurd (congrArg some (List.cons.inj same).1) point
    · rfl

theorem mantissa_length_pointed (whole fraction rest : List Char) (digits : Digits whole) (digits' : Digits fraction)
    (ends : NoDigit rest) : mantissaLength (whole ++ '.' :: (fraction ++ rest)) =
      if 0 < whole.length ∨ 0 < fraction.length then whole.length + 1 + fraction.length else 0 := by
  have found := take_digits fraction rest digits' ends
  rw [mantissaLength, take_digits whole _ digits (point_no_digit _), List.drop_left]
  simp only [found]

/-- A text begins with digits, with digits and a point, or with neither of them. -/
inductive Begins : List Char → Prop
  | whole (whole rest : List Char) (digits : Digits whole) (ends : NoDigit rest) (point : rest.head? ≠ some '.') :
      Begins (whole ++ rest)
  | pointed (whole fraction rest : List Char) (digits : Digits whole) (digits' : Digits fraction) (ends : NoDigit rest) :
      Begins (whole ++ '.' :: (fraction ++ rest))

theorem begins (cs : List Char) : Begins cs := by
  obtain ⟨whole, rest, rfl, digits, ends⟩ := digits_split cs
  by_cases point : rest.head? = some '.'
  · obtain ⟨tail, rfl⟩ := List.head?_eq_some_iff.mp point
    obtain ⟨fraction, rest, rfl, digits', ends'⟩ := digits_split tail
    exact .pointed whole fraction rest digits digits' ends'
  · exact .whole whole rest digits ends point

theorem mantissa_found (cs : List Char) (found : mantissaLength cs ≠ 0) :
    ∃ mantissa rest q, cs = mantissa ++ rest ∧ mantissaLength cs = mantissa.length ∧ Mantissa mantissa q := by
  cases begins cs with
  | whole whole rest digits ends point =>
    rw [mantissa_length_whole whole rest digits ends point] at found ⊢
    exact ⟨whole, rest, _, rfl, rfl, .whole whole digits (List.ne_nil_of_length_pos (Nat.pos_of_ne_zero found))⟩
  | pointed whole fraction rest digits digits' ends =>
    rw [mantissa_length_pointed whole fraction rest digits digits' ends] at found ⊢
    split at found
    · next nonempty =>
      refine ⟨whole ++ '.' :: fraction, rest, _, by rw [List.append_assoc, List.cons_append], ?_,
        .pointed whole fraction digits digits' (nonempty.imp List.ne_nil_of_length_pos List.ne_nil_of_length_pos)⟩
      rw [if_pos nonempty, List.length_append, List.length_cons]
      omega
    · exact absurd rfl found

-- The scan reaches at least as far as any mantissa, and no further where neither a digit nor a point follows.
theorem mantissa_reached (mantissa rest : List Char) (q : ℚ) (is : Mantissa mantissa q) :
    mantissa.length ≤ mantissaLength (mantissa ++ rest) := by
  cases is with
  | whole _ digits nonempty =>
    have positive : 0 < mantissa.length := List.length_pos_iff.mpr nonempty
    obtain ⟨more, after, rfl, digits', ends⟩ := digits_split rest
    have all : Digits (mantissa ++ more) := fun c member =>
      (List.mem_append.mp member).elim (digits c) (digits' c)
    have longer : mantissa.length ≤ (mantissa ++ more).length := by
      rw [List.length_append]
      exact Nat.le_add_right _ _
    rw [← List.append_assoc]
    by_cases point : after.head? = some '.'
    · obtain ⟨tail, rfl⟩ := List.head?_eq_some_iff.mp point
      obtain ⟨fraction, last, rfl, fractional, ends'⟩ := digits_split tail
      rw [mantissa_length_pointed _ fraction last all fractional ends', if_pos (.inl (by omega))]
      omega
    · rwa [mantissa_length_whole _ after all ends point]
  | pointed whole fraction digits digits' nonempty =>
    obtain ⟨more, after, rfl, digits'', ends⟩ := digits_split rest
    have all : Digits (fraction ++ more) := fun c member =>
      (List.mem_append.mp member).elim (digits' c) (digits'' c)
    have front : whole ++ '.' :: fraction ++ (more ++ after) = whole ++ '.' :: (fraction ++ more ++ after) := by
      simp only [List.append_assoc, List.cons_append]
    have some' : 0 < whole.length ∨ 0 < (fraction ++ more).length := by
      rw [List.length_append]
      exact nonempty.imp List.length_pos_iff.mpr fun other => Nat.add_pos_left (List.length_pos_iff.mpr other) _
    rw [front, mantissa_length_pointed whole _ after digits all ends, if_pos some', List.length_append,
      List.length_append, List.length_cons]
    omega

theorem mantissa_reached_exactly (mantissa rest : List Char) (q : ℚ) (is : Mantissa mantissa q) (ends : NoDigit rest)
    (point : rest.head? ≠ some '.') : mantissaLength (mantissa ++ rest) = mantissa.length := by
  cases is with
  | whole _ digits nonempty => exact mantissa_length_whole mantissa rest digits ends point
  | pointed whole fraction digits digits' nonempty =>
    have front : whole ++ '.' :: fraction ++ rest = whole ++ '.' :: (fraction ++ rest) := by
      rw [List.append_assoc, List.cons_append]
    rw [front, mantissa_length_pointed whole fraction rest digits digits' ends,
      if_pos (nonempty.imp List.length_pos_iff.mpr List.length_pos_iff.mpr), List.length_append, List.length_cons]
    omega

theorem sign_length (sign rest : List Char) (factor : Int) (signs : Signs sign factor)
    (plain : ∀ c ∈ rest.head?, isSign c = false) : signLength (sign ++ rest) = sign.length := by
  cases signs with
  | nothing =>
    cases rest with
    | nil => rfl
    | cons c rest => exact if_neg (by rw [plain c rfl]; exact Bool.false_ne_true)
  | plus => rfl
  | minus => rfl

theorem digit_no_sign (c : Char) (digit : c.isDigit = true) : isSign c = false := by
  rw [isSign, Bool.or_eq_false_iff, beq_eq_false_iff_ne, beq_eq_false_iff_ne]
  constructor <;> rintro rfl <;> cases digit

theorem digits_no_sign (digits rest : List Char) (all : Digits digits) (nonempty : digits ≠ []) :
    ∀ c ∈ (digits ++ rest).head?, isSign c = false := by
  cases digits with
  | nil => exact absurd rfl nonempty
  | cons first digits =>
    rintro c ⟨rfl⟩
    exact digit_no_sign first (all first List.mem_cons_self)

theorem signs_found (cs : List Char) :
    ∃ sign rest factor, cs = sign ++ rest ∧ signLength cs = sign.length ∧ Signs sign factor := by
  cases cs with
  | nil => exact ⟨[], [], 1, rfl, rfl, .nothing⟩
  | cons c rest =>
    rw [signLength]
    split
    · next sign =>
      rw [isSign, Bool.or_eq_true, beq_iff_eq, beq_iff_eq] at sign
      rcases sign with rfl | rfl
      · exact ⟨['+'], rest, 1, rfl, rfl, .plus⟩
      · exact ⟨['-'], rest, -1, rfl, rfl, .minus⟩
    · exact ⟨[], c :: rest, 1, rfl, rfl, .nothing⟩

theorem exponent_found (cs : List Char) :
    ∃ exponent rest k, cs = exponent ++ rest ∧ exponentLength cs = exponent.length ∧ Exponent exponent k := by
  cases cs with
  | nil => exact ⟨[], [], 0, rfl, rfl, .nothing⟩
  | cons mark tail =>
    rw [exponentLength]
    split
    · next marks =>
      obtain ⟨sign, after, factor, rfl, length, signs⟩ := signs_found tail
      obtain ⟨digits, rest, rfl, all, ends⟩ := digits_split after
      dsimp only
      rw [length, List.drop_left, take_digits digits rest all ends]
      split
      · next nonempty =>
        refine ⟨mark :: (sign ++ digits), rest, _, by rw [List.cons_append, List.append_assoc], ?_,
          .marked mark sign digits factor marks signs all (List.ne_nil_of_length_pos nonempty)⟩
        rw [List.length_cons, List.length_append]
        omega
      · exact ⟨[], _, 0, rfl, rfl, .nothing⟩
    · exact ⟨[], mark :: tail, 0, rfl, rfl, .nothing⟩

theorem exponent_reached (exponent rest : List Char) (k : Int) (is : Exponent exponent k) :
    exponent.length ≤ exponentLength (exponent ++ rest) := by
  cases is with
  | nothing => exact Nat.zero_le _
  | marked mark sign digits factor marks signs all nonempty =>
    have length := sign_length sign (digits ++ rest) factor signs (digits_no_sign digits rest all nonempty)
    have positive : 0 < digits.length := List.length_pos_iff.mpr nonempty
    rw [List.cons_append, List.append_assoc, exponentLength, if_pos marks]
    dsimp only
    rw [length, List.drop_left, take_while_digits digits rest all, List.length_append, if_pos (by omega),
      List.length_cons, List.length_append]
    omega

theorem mantissa_begins (mantissa : List Char) (q : ℚ) (is : Mantissa mantissa q) :
    ∃ c tail, mantissa = c :: tail ∧ (c.isDigit = true ∨ c = '.') := by
  cases is with
  | whole _ digits nonempty =>
    cases mantissa with
    | nil => exact absurd rfl nonempty
    | cons c tail => exact ⟨c, tail, rfl, .inl (digits c List.mem_cons_self)⟩
  | pointed whole fraction digits digits' nonempty =>
    cases whole with
    | nil => exact ⟨'.', fraction, rfl, .inr rfl⟩
    | cons c tail => exact ⟨c, tail ++ '.' :: fraction, rfl, .inl (digits c List.mem_cons_self)⟩

theorem unsigned_begins (body : List Char) (q : ℚ) (is : Unsigned body q) :
    ∃ c tail, body = c :: tail ∧ (c.isDigit = true ∨ c = '.') := by
  cases is with
  | decimal mantissa exponent q k front back =>
    obtain ⟨c, tail, rfl, first⟩ := mantissa_begins mantissa q front
    exact ⟨c, tail ++ exponent, rfl, first⟩

theorem first_no_sign (c : Char) (first : c.isDigit = true ∨ c = '.') : isSign c = false := by
  rcases first with digit | rfl
  · exact digit_no_sign c digit
  · rfl

theorem exponent_begins (exponent rest : List Char) (k : Int) (is : Exponent exponent k) (nonempty : exponent ≠ []) :
    NoDigit (exponent ++ rest) ∧ (exponent ++ rest).head? ≠ some '.' := by
  cases is with
  | nothing => exact absurd rfl nonempty
  | marked mark sign digits factor marks signs all some' =>
    constructor
    · rintro c ⟨rfl⟩
      rcases marks with rfl | rfl <;> rfl
    · intro same
      rcases marks with rfl | rfl <;> cases same

/-- The scan reaches at least as far as any decimal. -/
theorem unsigned_reached (body rest : List Char) (q : ℚ) (is : Unsigned body q) :
    mantissaLength (body ++ rest) ≠ 0 ∧ body.length ≤ mantissaLength (body ++ rest) +
      exponentLength ((body ++ rest).drop (mantissaLength (body ++ rest))) := by
  cases is with
  | decimal mantissa exponent q k front back =>
    obtain ⟨c, tail, same, _⟩ := mantissa_begins mantissa q front
    have positive : 0 < mantissa.length := by
      rw [same]
      exact Nat.succ_pos _
    rw [List.append_assoc, List.length_append]
    have reached := mantissa_reached mantissa (exponent ++ rest) q front
    refine ⟨by omega, ?_⟩
    by_cases none : exponent = []
    · subst none
      simp only [List.length_nil]
      omega
    · obtain ⟨ends, point⟩ := exponent_begins exponent rest k back none
      rw [mantissa_reached_exactly mantissa _ q front ends point, List.drop_left]
      have more := exponent_reached exponent rest k back
      omega

theorem infinity_letters : "Infinity".toList = ['I', 'n', 'f', 'i', 'n', 'i', 't', 'y'] := by
  decide

theorem infinity_word_first (rest : List Char) : "Infinity".toList.isPrefixOf ("Infinity".toList ++ rest) = true :=
  List.isPrefixOf_iff_prefix.mpr (List.prefix_append _ _)

theorem unsigned_no_infinity (body rest : List Char) (q : ℚ) (is : Unsigned body q) :
    "Infinity".toList.isPrefixOf (body ++ rest) = false := by
  obtain ⟨c, tail, rfl, first⟩ := unsigned_begins body q is
  have other : ('I' == c) = false := by
    rw [beq_eq_false_iff_ne]
    rintro rfl
    rcases first with digit | point
    · cases digit
    · cases point
  rw [infinity_letters, List.cons_append, List.isPrefixOf, other, Bool.false_and]

/-- The scan reaches at least as far as any literal. -/
theorem literal_reached (cs rest : List Char) (is : DecimalLiteral cs) : cs.length ≤ literalLength (cs ++ rest) := by
  cases is with
  | infinity sign factor signs =>
    have length := sign_length sign ("Infinity".toList ++ rest) factor signs (by rintro c ⟨rfl⟩; rfl)
    rw [List.append_assoc, literalLength]
    dsimp only
    rw [length, List.drop_left, if_pos (infinity_word_first rest), List.length_append]
    exact Nat.le_refl _
  | decimal sign body factor q signs unsigned =>
    obtain ⟨c, tail, same, first⟩ := unsigned_begins body q unsigned
    have plain : ∀ c ∈ (body ++ rest).head?, isSign c = false := by
      rw [same]
      rintro c ⟨rfl⟩
      exact first_no_sign _ first
    obtain ⟨nonzero, reached⟩ := unsigned_reached body rest q unsigned
    rw [List.append_assoc, literalLength]
    dsimp only
    rw [sign_length sign _ factor signs plain, List.drop_left, unsigned_no_infinity body rest q unsigned,
      if_neg Bool.false_ne_true, if_neg nonzero, List.length_append]
    omega

/-- What the scan passes over is a literal. -/
theorem literal_found (cs : List Char) (found : literalLength cs ≠ 0) :
    ∃ literal rest, cs = literal ++ rest ∧ literalLength cs = literal.length ∧ DecimalLiteral literal := by
  obtain ⟨sign, tail, factor, rfl, length, signs⟩ := signs_found cs
  rw [literalLength] at found ⊢
  dsimp only at found ⊢
  rw [length, List.drop_left] at found ⊢
  split at found
  · next infinite =>
    obtain ⟨rest, rfl⟩ := List.isPrefixOf_iff_prefix.mp infinite
    refine ⟨sign ++ "Infinity".toList, rest, (List.append_assoc ..).symm, ?_, .infinity sign factor signs⟩
    rw [if_pos infinite, List.length_append]
    rfl
  · next finite =>
    split at found
    · exact absurd rfl found
    · next some' =>
      obtain ⟨mantissa, after, q, rfl, reached, front⟩ := mantissa_found tail some'
      obtain ⟨exponent, rest, k, rfl, reached', back⟩ := exponent_found after
      refine ⟨sign ++ (mantissa ++ exponent), rest, by simp only [List.append_assoc], ?_,
        .decimal sign _ factor _ signs (.decimal mantissa exponent q k front back)⟩
      rw [if_neg finite, if_neg some', reached, List.drop_left, reached', List.length_append, List.length_append]
      omega

/-- The scan passes over the longest literal, and over nothing where there is none. -/
theorem leading_literal_cases (cs : List Char) :
    literalLength cs = 0 ∧ leadingLiteral cs = [] ∨
      DecimalLiteral (leadingLiteral cs) ∧ (leadingLiteral cs).length = literalLength cs ∧ leadingLiteral cs <+: cs := by
  by_cases found : literalLength cs = 0
  · refine .inl ⟨found, ?_⟩
    rw [leadingLiteral, found, List.take_zero]
  · obtain ⟨literal, rest, rfl, length, is⟩ := literal_found cs found
    have same : leadingLiteral (literal ++ rest) = literal := by
      rw [leadingLiteral, length, List.take_left]
    rw [same, length]
    exact .inr ⟨is, rfl, List.prefix_append literal rest⟩

-- A point, an exponent and a sign belong to the literal only with the digits that they need.
example : leadingLiteral "-1.e+x".toList = "-1.".toList ∧ leadingLiteral "+.5e-3e".toList = "+.5e-3".toList ∧
    leadingLiteral ".e1".toList = [] := by
  decide

/-! Reading a literal. -/

theorem split_sign_plain (cs : List Char) (plain : ∀ c ∈ cs.head?, isSign c = false) : splitSign cs = (false, cs) := by
  cases cs with
  | nil => rfl
  | cons c rest =>
    have sign := plain c rfl
    rw [isSign, Bool.or_eq_false_iff, beq_eq_false_iff_ne, beq_eq_false_iff_ne] at sign
    rw [splitSign]
    · exact fun _ same => sign.2 (List.cons.inj same).1
    · exact fun _ same => sign.1 (List.cons.inj same).1

theorem split_sign (sign rest : List Char) (factor : Int) (signs : Signs sign factor)
    (plain : ∀ c ∈ rest.head?, isSign c = false) : splitSign (sign ++ rest) = (decide (factor = -1), rest) := by
  cases signs with
  | nothing => exact split_sign_plain rest plain
  | plus => rfl
  | minus => rfl

theorem signed_value (sign : List Char) (factor : Int) (signs : Signs sign factor) (n : Int) :
    (if decide (factor = -1) = true then -n else n) = factor * n := by
  cases signs with
  | nothing => exact (one_mul n).symm
  | plus => exact (one_mul n).symm
  | minus => exact neg_eq_neg_one_mul n

theorem exponent_read (exponent : List Char) (k : Int) (is : Exponent exponent k) : exponentOf? exponent = some k := by
  cases is with
  | nothing => rfl
  | marked mark sign digits factor marks signs all nonempty =>
    have plain := digits_no_sign digits [] all nonempty
    rw [List.append_nil] at plain
    have some' : (digits.isEmpty || !digits.all Char.isDigit) = false := by
      rw [List.isEmpty_eq_false_iff.mpr nonempty, List.all_eq_true.mpr all]
      rfl
    rw [exponentOf?, if_pos marks, split_sign sign digits factor signs plain]
    dsimp only
    rw [some', if_neg Bool.false_ne_true, signed_value sign factor signs]

theorem exponent_no_point (exponent : List Char) (k : Int) (is : Exponent exponent k) :
    NoDigit exponent ∧ splitFraction exponent = ([], exponent) := by
  cases is with
  | nothing => exact ⟨nofun, rfl⟩
  | marked mark sign digits factor marks signs all nonempty =>
    constructor
    · rintro c ⟨rfl⟩
      rcases marks with rfl | rfl <;> rfl
    · rcases marks with rfl | rfl <;> rfl

/-- The digits of a decimal, those after the point too, and the power of ten that they count. -/
def decimalParts (cs : List Char) : Nat × Int :=
  let (fraction, tail) := splitFraction (cs.dropWhile Char.isDigit)
  (digitsValue (cs.takeWhile Char.isDigit ++ fraction), (exponentOf? tail).getD 0 - fraction.length)

theorem whole_parts_read (whole exponent : List Char) (k : Int) (digits : Digits whole) (back : Exponent exponent k) :
    decimalParts (whole ++ exponent) = (digitsValue whole, k) := by
  obtain ⟨ends, fraction⟩ := exponent_no_point exponent k back
  rw [decimalParts, take_digits whole exponent digits ends, drop_digits whole exponent digits ends, fraction]
  dsimp only
  rw [exponent_read exponent k back, List.append_nil, Option.getD_some, List.length_nil, Int.natCast_zero, Int.sub_zero]

theorem pointed_parts_read (whole fraction exponent : List Char) (k : Int) (digits : Digits whole)
    (digits' : Digits fraction) (back : Exponent exponent k) :
    decimalParts (whole ++ '.' :: (fraction ++ exponent)) = (digitsValue (whole ++ fraction), k - fraction.length) := by
  have ends := (exponent_no_point exponent k back).1
  rw [decimalParts, take_digits whole _ digits (point_no_digit _), drop_digits whole _ digits (point_no_digit _),
    splitFraction, take_digits fraction exponent digits' ends, drop_digits fraction exponent digits' ends]
  dsimp only
  rw [exponent_read exponent k back, Option.getD_some]

/-- A decimal denotes its digits times their power of ten. -/
theorem unsigned_parts (body : List Char) (q : ℚ) (is : Unsigned body q) :
    ((decimalParts body).1 : ℚ) * 10 ^ (decimalParts body).2 = q := by
  cases is with
  | decimal mantissa exponent q k front back =>
    cases front with
    | whole _ digits nonempty => rw [whole_parts_read mantissa exponent k digits back]
    | pointed whole fraction digits digits' nonempty =>
      have ten : (10 : ℚ) ≠ 0 := by
        norm_num
      rw [List.append_assoc, List.cons_append, pointed_parts_read whole fraction exponent k digits digits' back,
        digits_value_append, zpow_sub₀ ten, zpow_natCast]
      push_cast
      field_simp

theorem unsigned_unique (body : List Char) (q r : ℚ) (left : Unsigned body q) (right : Unsigned body r) : q = r :=
  (unsigned_parts body q left).symm.trans (unsigned_parts body r right)

/-- A decimal is read as its digits times their power of ten, rounded. -/
theorem unsigned_read (body : List Char) (q : ℚ) (is : Unsigned body q) :
    readDecimal? body = some (ofDecimal (decimalParts body).1 (decimalParts body).2) := by
  obtain ⟨c, tail, same, first⟩ := unsigned_begins body q is
  have plain : splitSign body = (false, body) := by
    refine split_sign_plain body ?_
    rw [same]
    rintro c ⟨rfl⟩
    exact first_no_sign _ first
  cases is with
  | decimal mantissa exponent q k front back =>
    obtain ⟨ends, fraction⟩ := exponent_no_point exponent k back
    have power := exponent_read exponent k back
    rw [readDecimal?, plain, decimalParts]
    dsimp only
    cases front with
    | whole _ digits nonempty =>
      rw [take_digits mantissa exponent digits ends, drop_digits mantissa exponent digits ends, fraction]
      dsimp only
      rw [List.isEmpty_eq_false_iff.mpr nonempty, Bool.false_and, if_neg Bool.false_ne_true, power,
        Option.map_some, if_neg Bool.false_ne_true, Option.getD_some]
    | pointed whole fractional digits digits' nonempty =>
      have split : splitFraction ('.' :: (fractional ++ exponent)) = (fractional, exponent) := by
        rw [splitFraction, take_digits fractional exponent digits' ends, drop_digits fractional exponent digits' ends]
      have some' : (whole.isEmpty && fractional.isEmpty) = false := by
        rw [Bool.and_eq_false_iff, List.isEmpty_eq_false_iff, List.isEmpty_eq_false_iff]
        exact nonempty
      rw [List.append_assoc, List.cons_append, take_digits whole _ digits (point_no_digit _),
        drop_digits whole _ digits (point_no_digit _), split]
      dsimp only
      rw [some', if_neg Bool.false_ne_true, power, Option.map_some, if_neg Bool.false_ne_true, Option.getD_some]

/-! The characters of literals. -/

theorem digit_decimal_char (c : Char) (digit : c.isDigit = true) : isDecimalChar c = true := by
  simp [isDecimalChar, digit]

theorem signs_chars (sign : List Char) (factor : Int) (signs : Signs sign factor) :
    ∀ c ∈ sign, isDecimalChar c = true := by
  cases signs with
  | nothing => nofun
  | plus => exact List.all_eq_true.mp (by decide)
  | minus => exact List.all_eq_true.mp (by decide)

theorem unsigned_chars (body : List Char) (q : ℚ) (is : Unsigned body q) :
    (∀ c ∈ body, isDecimalChar c = true) ∧ ∃ c ∈ body, c.isDigit = true := by
  cases is with
  | decimal mantissa exponent q k front back =>
    have back : ∀ c ∈ exponent, isDecimalChar c = true := by
      cases back with
      | nothing => nofun
      | marked mark sign digits factor marks signs all nonempty =>
        intro c member
        rcases List.mem_cons.mp member with rfl | member
        · rcases marks with rfl | rfl <;> rfl
        · exact (List.mem_append.mp member).elim (signs_chars sign factor signs c)
            fun there => digit_decimal_char c (all c there)
    have front : (∀ c ∈ mantissa, isDecimalChar c = true) ∧ ∃ c ∈ mantissa, c.isDigit = true := by
      cases front with
      | whole _ digits nonempty =>
        obtain ⟨c, rest, rfl⟩ := List.exists_cons_of_ne_nil nonempty
        exact ⟨fun d there => digit_decimal_char d (digits d there), c, List.mem_cons_self, digits c List.mem_cons_self⟩
      | pointed whole fraction digits digits' nonempty =>
        constructor
        · intro c member
          rcases List.mem_append.mp member with there | there
          · exact digit_decimal_char c (digits c there)
          · rcases List.mem_cons.mp there with rfl | there
            · rfl
            · exact digit_decimal_char c (digits' c there)
        · rcases nonempty with some' | some'
          · obtain ⟨c, rest, rfl⟩ := List.exists_cons_of_ne_nil some'
            exact ⟨c, List.mem_append_left _ List.mem_cons_self, digits c List.mem_cons_self⟩
          · obtain ⟨c, rest, rfl⟩ := List.exists_cons_of_ne_nil some'
            exact ⟨c, List.mem_append_right _ (List.mem_cons_of_mem _ List.mem_cons_self),
              digits' c List.mem_cons_self⟩
    obtain ⟨c, there, digit⟩ := front.2
    exact ⟨fun d member => (List.mem_append.mp member).elim (front.1 d) (back d), c, List.mem_append_left _ there, digit⟩

theorem decimal_char_narrow (c : Char) (decimal : isDecimalChar c = true) : c.utf8Size = 1 := by
  simp only [isDecimalChar, Bool.or_eq_true, beq_iff_eq] at decimal
  rcases decimal with ((((digit | rfl) | rfl) | rfl) | rfl) | rfl
  · exact digit_width c digit
  all_goals rfl

theorem literal_narrow (cs : List Char) (is : DecimalLiteral cs) : ∀ c ∈ cs, c.utf8Size = 1 := by
  intro c member
  cases is with
  | infinity sign factor signs =>
    rcases List.mem_append.mp member with there | there
    · exact decimal_char_narrow c (signs_chars sign factor signs c there)
    · have letters : ("Infinity".toList.all fun c => c.utf8Size == 1) = true := by
        decide
      exact eq_of_beq (List.all_eq_true.mp letters c there)
  | decimal sign body factor q signs unsigned =>
    exact decimal_char_narrow c ((List.mem_append.mp member).elim (signs_chars sign factor signs c)
      ((unsigned_chars body q unsigned).1 c))

/-! The number at the start of a text. -/

theorem literal_nonempty (cs : List Char) (is : DecimalLiteral cs) : cs ≠ [] := by
  cases is with
  | infinity sign factor signs =>
    rw [infinity_letters]
    simp
  | decimal sign body factor q signs unsigned =>
    obtain ⟨c, tail, rfl, _⟩ := unsigned_begins body q unsigned
    simp

theorem no_literal_iff (cs : List Char) : literalLength cs = 0 ↔ ∀ ds, ds <+: cs → ¬ DecimalLiteral ds := by
  constructor
  · rintro none ds ⟨rest, rfl⟩ is
    have reached := literal_reached ds rest is
    exact literal_nonempty ds is (List.length_eq_zero_iff.mp (by omega))
  · intro none
    rcases leading_literal_cases cs with ⟨zero, _⟩ | ⟨is, _, starts⟩
    · exact zero
    · exact absurd is (none _ starts)

/-- What is read of a literal: all of it but its sign, which is one at most. -/
theorem literal_unsigned (cs : List Char) (is : DecimalLiteral cs) :
    cs.dropWhile isSign = "Infinity".toList ∨ ∃ q, Unsigned (cs.dropWhile isSign) q := by
  have dropped (sign body : List Char) (factor : Int) (signs : Signs sign factor)
      (plain : ∀ c ∈ body.head?, isSign c = false) : (sign ++ body).dropWhile isSign = body := by
    have stays : body.dropWhile isSign = body := by
      cases body with
      | nil => rfl
      | cons c rest => rw [List.dropWhile_cons, plain c rfl, if_neg Bool.false_ne_true]
    cases signs with
    | nothing => exact stays
    | plus => exact stays
    | minus => exact stays
  cases is with
  | infinity sign factor signs =>
    exact .inl (dropped sign _ factor signs (by rw [infinity_letters]; rintro c ⟨rfl⟩; rfl))
  | decimal sign body factor q signs unsigned =>
    obtain ⟨c, tail, rfl, first⟩ := unsigned_begins body q unsigned
    refine .inr ⟨q, ?_⟩
    rwa [dropped sign _ factor signs (by rintro c ⟨rfl⟩; exact first_no_sign _ first)]

/-- As an offset in bytes, too, the length of the literal is a place between two characters. -/
theorem leading_literal_boundary (s : String) :
    ∃ rest, s = String.ofList (leadingLiteral s.toList) ++ rest ∧
      (String.ofList (leadingLiteral s.toList)).utf8ByteSize = literalLength s.toList := by
  rcases leading_literal_cases s.toList with ⟨zero, none⟩ | ⟨is, length, rest, same⟩
  · rw [none, zero]
    exact ⟨s, String.empty_append.symm, rfl⟩
  · refine ⟨String.ofList rest, ?_, ?_⟩
    · rw [← String.ofList_append, same, String.ofList_toList]
    · rw [narrow_size _ (literal_narrow _ is), length]

/-- Every literal is read as a number when its sign is off, and no literal is left empty. -/
theorem literal_accepted (cs : List Char) (is : DecimalLiteral cs) :
    cs.dropWhile isSign ≠ [] ∧
      (cs.dropWhile isSign = "Infinity".toList ∨ ∃ x, readDecimal? (cs.dropWhile isSign) = some x) := by
  rcases literal_unsigned cs is with infinite | ⟨q, unsigned⟩
  · rw [infinite]
    exact ⟨by decide, .inl rfl⟩
  · obtain ⟨c, tail, same, _⟩ := unsigned_begins _ q unsigned
    exact ⟨by rw [same]; exact List.cons_ne_nil c tail, .inr ⟨_, unsigned_read _ q unsigned⟩⟩

/--
The scan at the start of a text passes over the longest prefix that is a decimal literal, and over nothing exactly when
there is none. It ends between two characters, and what it has passed over is read as a number when its sign is off,
so that only a text without a literal is read as no number.
-/
theorem leading_literal_longest (s : String) :
    (∀ ds, ds <+: s.toList → DecimalLiteral ds → ds.length ≤ literalLength s.toList) ∧
      (literalLength s.toList = 0 ∨
        DecimalLiteral (leadingLiteral s.toList) ∧ (leadingLiteral s.toList).length = literalLength s.toList) ∧
      (literalLength s.toList = 0 ↔ ∀ ds, ds <+: s.toList → ¬ DecimalLiteral ds) ∧
      (⟨literalLength s.toList⟩ : String.Pos.Raw).IsValid s ∧
      ((leadingLiteral s.toList).dropWhile isSign = [] ↔ literalLength s.toList = 0) ∧
      ((leadingLiteral s.toList).dropWhile isSign = [] ∨
        (leadingLiteral s.toList).dropWhile isSign = "Infinity".toList ∨
          ∃ x, readDecimal? ((leadingLiteral s.toList).dropWhile isSign) = some x) := by
  have boundary : (⟨literalLength s.toList⟩ : String.Pos.Raw).IsValid s := by
    obtain ⟨rest, same, size⟩ := leading_literal_boundary s
    exact String.Pos.Raw.isValid_iff_exists_append.mpr ⟨_, rest, same, String.Pos.Raw.ext size.symm⟩
  refine ⟨?_, ?_, no_literal_iff s.toList, boundary, ?_, ?_⟩
  · rintro ds ⟨rest, same⟩ is
    rw [← same]
    exact literal_reached ds rest is
  · exact (leading_literal_cases s.toList).imp And.left fun found => ⟨found.1, found.2.1⟩
  · rcases leading_literal_cases s.toList with ⟨zero, none⟩ | ⟨is, length, _⟩
    · rw [none]
      exact iff_of_true rfl zero
    · have positive : 0 < (leadingLiteral s.toList).length := List.length_pos_iff.mpr (literal_nonempty _ is)
      exact iff_of_false (literal_accepted _ is).1 (by omega)
  · rcases leading_literal_cases s.toList with ⟨_, none⟩ | ⟨is, _⟩
    · rw [none]
      exact .inl rfl
    · exact .inr (literal_accepted _ is).2

end Ecma.Number
