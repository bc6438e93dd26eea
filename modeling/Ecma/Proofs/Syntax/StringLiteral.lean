import Ecma.Proofs.Grammar.Lexeme
import Ecma.Proofs.Syntax.Lawful
import Mathlib.Data.List.Forall2
import Mathlib.Data.Nat.Digits.Defs
import Mathlib.Tactic.IntervalCases

set_option autoImplicit false

/-!
The values of string literals. The text between the quotes is a row of pieces, and each piece stands for
some code units, whatever the pieces before it; the units are then read as characters.
-/

namespace Ecma.Syntax

open Ecma.Text
open Ecma.Grammar

/-! Units read as characters. -/

/-- The characters that units encode; a unit that begins no character is replaced. -/
inductive Lossy : List Nat → List Char → Prop
  | nothing : Lossy [] []
  | char (c : Char) (units : List Nat) (cs : List Char) (more : Lossy units cs) : Lossy (unitsOfChar c ++ units) (c :: cs)
  | lone (unit : Nat) (units : List Nat) (cs : List Char) (lost : ∀ c, ¬ unitsOfChar c <+: unit :: units)
      (more : Lossy units cs) : Lossy (unit :: units) (replacement :: cs)

theorem char_scalar (c : Char) : c.toNat < 0xD800 ∨ 0xDFFF < c.toNat ∧ c.toNat < 0x110000 :=
  c.valid

theorem of_nat_scalar (n : Nat) (scalar : n < 0xD800 ∨ 0xDFFF < n ∧ n < 0x110000) : (Char.ofNat n).toNat = n := by
  have valid : n.isValidChar := scalar
  rw [Char.ofNat, dif_pos valid]
  rfl

theorem surrogate_iff (unit : Nat) :
    (isHighSurrogate unit || isLowSurrogate unit) = true ↔ 0xD800 ≤ unit ∧ unit < 0xE000 := by
  rw [isHighSurrogate, isLowSurrogate, Bool.or_eq_true, Bool.and_eq_true, Bool.and_eq_true, decide_eq_true_iff,
    decide_eq_true_iff, decide_eq_true_iff, decide_eq_true_iff]
  omega

theorem pair_iff (high low : Nat) :
    (isHighSurrogate high && isLowSurrogate low) = true ↔
      (0xD800 ≤ high ∧ high < 0xDC00) ∧ 0xDC00 ≤ low ∧ low < 0xE000 := by
  rw [isHighSurrogate, isLowSurrogate, Bool.and_eq_true, Bool.and_eq_true, Bool.and_eq_true, decide_eq_true_iff,
    decide_eq_true_iff, decide_eq_true_iff, decide_eq_true_iff]

theorem unit_alone (unit : Nat) (small : unit < 0x10000)
    (single : (isHighSurrogate unit || isLowSurrogate unit) = false) : unitsOfChar (Char.ofNat unit) = [unit] := by
  rw [← Bool.not_eq_true, surrogate_iff] at single
  rw [unitsOfChar, of_nat_scalar unit (by omega), if_pos small]

theorem units_joined (high low : Nat) (pair : (isHighSurrogate high && isLowSurrogate low) = true) :
    unitsOfChar (joinSurrogates high low) = [high, low] := by
  rw [pair_iff] at pair
  rw [unitsOfChar, joinSurrogates, of_nat_scalar _ (by omega), if_neg (by omega)]
  exact List.cons_eq_cons.mpr ⟨by omega, List.cons_eq_cons.mpr ⟨by omega, rfl⟩⟩

/-- A character is encoded by one unit that is no surrogate, or by a pair of surrogates. -/
theorem units_of_char (c : Char) :
    (∃ unit, unitsOfChar c = [unit] ∧ (isHighSurrogate unit || isLowSurrogate unit) = false ∧ c = Char.ofNat unit) ∨
      ∃ high low, unitsOfChar c = [high, low] ∧ (isHighSurrogate high && isLowSurrogate low) = true ∧
        c = joinSurrogates high low := by
  have scalar := char_scalar c
  rw [unitsOfChar]
  split
  · refine .inl ⟨c.toNat, rfl, ?_, (Char.ofNat_toNat c).symm⟩
    rw [← Bool.not_eq_true, surrogate_iff]
    omega
  · refine .inr ⟨_, _, rfl, ?_, ?_⟩
    · rw [pair_iff]
      omega
    · rw [joinSurrogates, Nat.add_sub_cancel_left, Nat.add_sub_cancel_left, Nat.add_assoc, Nat.div_add_mod',
        Nat.add_sub_cancel' (by omega), Char.ofNat_toNat]

theorem chars_of_char (c : Char) (units : List Nat) :
    charsOfUnits (unitsOfChar c ++ units) = c :: charsOfUnits units := by
  rcases units_of_char c with ⟨unit, encoded, single, same⟩ | ⟨high, low, encoded, pair, same⟩
  · have alone : charOfUnit unit = c := by
      rw [charOfUnit, single, same]
      rfl
    have notHigh : isHighSurrogate unit = false := (Bool.or_eq_false_iff.mp single).1
    rw [encoded, List.singleton_append]
    cases units with
    | nil => exact congrArg (fun c => [c]) alone
    | cons low rest =>
      rw [charsOfUnits, notHigh, Bool.false_and, if_neg Bool.false_ne_true, alone]
  · rw [encoded, List.cons_append, List.singleton_append, charsOfUnits, if_pos pair, same]

theorem chars_of_lone (unit : Nat) (units : List Nat) (small : unit < 0x10000)
    (lost : ∀ c, ¬ unitsOfChar c <+: unit :: units) :
    charsOfUnits (unit :: units) = replacement :: charsOfUnits units := by
  have single : (isHighSurrogate unit || isLowSurrogate unit) = true := by
    by_contra single
    rw [Bool.not_eq_true] at single
    refine lost (Char.ofNat unit) ?_
    rw [unit_alone unit small single]
    exact ⟨units, rfl⟩
  cases units with
  | nil => exact congrArg (fun c => [c]) (if_pos single)
  | cons low rest =>
    have unpaired : ¬ (isHighSurrogate unit && isLowSurrogate low) = true := by
      intro pair
      refine lost (joinSurrogates unit low) ?_
      rw [units_joined unit low pair]
      exact ⟨rest, rfl⟩
    rw [charsOfUnits, if_neg unpaired, charOfUnit, if_pos single]

theorem lost_or_char (unit : Nat) (units : List Nat) :
    (∃ c rest, unit :: units = unitsOfChar c ++ rest) ∨ ∀ c, ¬ unitsOfChar c <+: unit :: units := by
  by_cases encoded : ∃ c, unitsOfChar c <+: unit :: units
  · obtain ⟨c, rest, same⟩ := encoded
    exact .inl ⟨c, rest, same.symm⟩
  · exact .inr fun c starts => encoded ⟨c, starts⟩

theorem unit_of_char_solid (c : Char) : 0 < (unitsOfChar c).length := by
  rw [unitsOfChar]
  split <;> exact Nat.succ_pos _

/-- Units are read as the characters that they encode. -/
theorem lossy_iff (units : List Nat) (small : ∀ unit ∈ units, unit < 0x10000) (cs : List Char) :
    Lossy units cs ↔ charsOfUnits units = cs := by
  constructor
  · intro lossy
    induction lossy with
    | nothing => rfl
    | char c units cs _ hyp =>
      rw [chars_of_char, hyp fun unit member => small unit (List.mem_append_right _ member)]
    | lone unit units cs lost _ hyp =>
      rw [chars_of_lone unit units (small unit List.mem_cons_self) lost,
        hyp fun unit member => small unit (List.mem_cons_of_mem _ member)]
  · rintro rfl
    generalize long : units.length = count
    induction count using Nat.strong_induction_on generalizing units with
    | h count hyp =>
      cases units with
      | nil => exact .nothing
      | cons unit units =>
        rcases lost_or_char unit units with ⟨c, rest, same⟩ | lost
        · rw [same] at small long ⊢
          rw [chars_of_char]
          rw [List.length_append] at long
          have shorter : rest.length < count := by
            have solid := unit_of_char_solid c
            omega
          exact .char c rest _ (hyp _ shorter rest
            (fun unit member => small unit (List.mem_append_right _ member)) rfl)
        · rw [chars_of_lone unit units (small unit List.mem_cons_self) lost]
          exact .lone unit units _ lost (hyp units.length (by rw [← long]; exact Nat.lt_succ_self _) units
            (fun unit member => small unit (List.mem_cons_of_mem _ member)) rfl)

/-! Numbers. -/

/-- The character is the digit of a value. -/
def Digit (base : Nat) (c : Char) (value : Nat) : Prop :=
  value < base ∧ ("0123456789abcdef".toList[value]? = some c ∨ "0123456789ABCDEF".toList[value]? = some c)

instance (base : Nat) (c : Char) (value : Nat) : Decidable (Digit base c value) := by
  unfold Digit
  infer_instance

/-- The digits of a number, the one that weighs most first. -/
def Numeral (base : Nat) (text : List Char) (value : Nat) : Prop :=
  ∃ digits, List.Forall₂ (Digit base) text digits ∧ Nat.ofDigits base digits.reverse = value

theorem of_digits_fold (base : Nat) (digits : List Nat) :
    Nat.ofDigits base digits.reverse = digits.foldl (fun value digit => value * base + digit) 0 := by
  rw [Nat.ofDigits_eq_foldr, List.foldr_reverse]
  congr
  funext value digit
  rw [Nat.mul_comm, Nat.add_comm]
  rfl

theorem digits_small (base : Nat) (text : List Char) (digits : List Nat) (fit : List.Forall₂ (Digit base) text digits) :
    ∀ digit ∈ digits, digit < base := by
  induction fit with
  | nil => exact fun _ none => absurd none List.not_mem_nil
  | cons one _ hyp =>
    intro digit member
    rcases List.mem_cons.mp member with rfl | later
    · exact one.1
    · exact hyp digit later

theorem char_between (low high c : Char) (above : low ≤ c) (below : c ≤ high) :
    ∃ k, k < high.toNat - low.toNat + 1 ∧ c = Char.ofNat (low.toNat + k) := by
  have above : low.toNat ≤ c.toNat := above
  have below : c.toNat ≤ high.toNat := below
  refine ⟨c.toNat - low.toNat, by omega, ?_⟩
  rw [Nat.add_sub_cancel' above, Char.ofNat_toNat]

theorem hex_digit_is (c : Char) (value : Nat) : hexDigit? c = some value ↔ Digit 16 c value := by
  constructor
  · fun_cases hexDigit? c with
    | case1 range | case2 _ range | case3 _ _ range =>
      rintro ⟨rfl⟩
      obtain ⟨k, small, rfl⟩ := char_between _ _ c range.1 range.2
      clear *- small
      revert k
      decide
    | case4 =>
      intro none
      cases none
  · rintro ⟨small, is⟩
    interval_cases value <;> rcases is with is | is <;> cases is <;> rfl

theorem octal_digit_is (c : Char) (value : Nat) : Digit 8 c value ↔ isOctal c = true ∧ value = c.toNat - 48 := by
  constructor
  · rintro ⟨small, is⟩
    interval_cases value <;> rcases is with is | is <;> cases is <;> decide
  · rintro ⟨octal, rfl⟩
    rw [isOctal, Bool.and_eq_true, decide_eq_true_iff, decide_eq_true_iff] at octal
    obtain ⟨k, small, rfl⟩ := char_between _ _ c octal.1 octal.2
    clear octal
    revert k
    decide

theorem hex_value_is (count start : Nat) (cs : List Char) (value : Nat) :
    hexValue? count start cs = some value ↔ ∃ text after digits, cs = text ++ after ∧ text.length = count ∧
      List.Forall₂ (Digit 16) text digits ∧ digits.foldl (fun value digit => value * 16 + digit) start = value := by
  constructor
  · intro is
    induction count generalizing start cs with
    | zero =>
      cases is
      exact ⟨[], cs, [], rfl, rfl, .nil, rfl⟩
    | succ count hyp =>
      cases cs with
      | nil => cases is
      | cons c cs =>
        rw [hexValue?] at is
        cases found : hexDigit? c with
        | none =>
          rw [found] at is
          cases is
        | some digit =>
          rw [found] at is
          obtain ⟨text, after, digits, rfl, rfl, fit, same⟩ := hyp _ cs is
          exact ⟨c :: text, after, digit :: digits, rfl, rfl,
            .cons ((hex_digit_is c digit).mp found) fit, same⟩
  · rintro ⟨text, after, digits, rfl, rfl, fit, rfl⟩
    induction fit generalizing start with
    | nil => rfl
    | cons one _ hyp =>
      rw [List.cons_append, List.length_cons, hexValue?, (hex_digit_is _ _).mpr one]
      exact hyp _

theorem hex_numeral (count : Nat) (cs : List Char) (value : Nat) :
    hexValue? count 0 cs = some value ↔
      ∃ text, text <+: cs ∧ text.length = count ∧ Numeral 16 text value := by
  constructor
  · intro is
    obtain ⟨text, after, digits, same, long, fit, total⟩ := (hex_value_is count 0 cs value).mp is
    exact ⟨text, ⟨after, same.symm⟩, long, digits, fit, (of_digits_fold 16 digits).trans total⟩
  · rintro ⟨text, ⟨after, same⟩, long, digits, fit, total⟩
    exact (hex_value_is count 0 cs value).mpr
      ⟨text, after, digits, same.symm, long, fit, (of_digits_fold 16 digits).symm.trans total⟩

theorem octal_value_is (most start : Nat) (cs : List Char) :
    ∃ text after digits, cs = text ++ after ∧ List.Forall₂ (Digit 8) text digits ∧ text.length ≤ most ∧
      octalValue most start cs = (digits.foldl (fun value digit => value * 8 + digit) start, text.length) ∧
      (text.length < most → ∀ c rest, after = c :: rest → isOctal c = false) := by
  induction most generalizing start cs with
  | zero => exact ⟨[], cs, [], rfl, .nil, Nat.zero_le _, rfl, fun less => absurd less (Nat.not_lt_zero _)⟩
  | succ most hyp =>
    cases cs with
    | nil => exact ⟨[], [], [], rfl, .nil, Nat.zero_le _, rfl, fun _ _ _ none => by cases none⟩
    | cons c cs =>
      cases octal : isOctal c with
      | false =>
        refine ⟨[], c :: cs, [], rfl, .nil, Nat.zero_le _, ?_, ?_⟩
        · rw [octalValue, octal]
          rfl
        · rintro _ _ _ ⟨rfl⟩
          exact octal
      | true =>
        obtain ⟨text, after, digits, rfl, fit, short, same, ends⟩ := hyp (start * 8 + (c.toNat - 48)) cs
        refine ⟨c :: text, after, (c.toNat - 48) :: digits, rfl, ?_, Nat.succ_le_succ short, ?_, ?_⟩
        · exact .cons ((octal_digit_is c _).mpr ⟨octal, rfl⟩) fit
        · rw [octalValue, if_pos octal, same]
          rfl
        · exact fun less => ends (Nat.lt_of_succ_lt_succ less)

/-! Pieces. -/

/-- The escapes of one character and the units that they stand for. -/
def singleEscapes : List (Char × Nat) :=
  [('b', 8), ('t', 9), ('n', 10), ('v', 11), ('f', 12), ('r', 13)]

/-- A line end behind a backslash; a carriage return and a line feed are one. -/
inductive LineEnd : List Char → List Char → Prop
  | single (c : Char) (after : List Char) (ends : c ∈ ['\n', '\u2028', '\u2029']) : LineEnd [c] after
  | double (after : List Char) : LineEnd ['\r', '\n'] after
  | carriage (after : List Char) (alone : ∀ rest, after ≠ '\n' :: rest) : LineEnd ['\r'] after

/-- Up to three octal digits that fit a byte. -/
structure OctalText (text : List Char) (value : Nat) : Prop where
  solid : text ≠ []
  short : text.length ≤ 3
  number : Numeral 8 text value
  small : value ≤ 255

/-- No digit follows. -/
def Undigited (after : List Char) : Prop :=
  ∀ c rest, after = c :: rest → c.isDigit = false

/-- Characters that do not stand for themselves behind a backslash. -/
def escapedLetters : List Char :=
  namedEscapes ++ ['0', '1', '2', '3', '4', '5', '6', '7']

/-- A piece of a string, the text behind it, its units, and whether it is an octal escape. -/
inductive Piece : List Char → List Char → List Nat → Bool → Prop
  | plain (c : Char) (after : List Char) (other : c ≠ '\\') : Piece [c] after (unitsOfChar c) false
  | single (c : Char) (unit : Nat) (after : List Char) (known : (c, unit) ∈ singleEscapes) :
      Piece ['\\', c] after [unit] false
  | hexadecimal (digits after : List Char) (value : Nat) (two : digits.length = 2) (number : Numeral 16 digits value) :
      Piece ('\\' :: 'x' :: digits) after [value] false
  | unicode (digits after : List Char) (value : Nat) (four : digits.length = 4) (number : Numeral 16 digits value) :
      Piece ('\\' :: 'u' :: digits) after [value] false
  | continued (line after : List Char) (ends : LineEnd line after) : Piece ('\\' :: line) after [] false
  | nul (after : List Char) (last : Undigited after) : Piece ['\\', '0'] after [0] false
  | octal (digits after : List Char) (value : Nat) (number : OctalText digits value)
      (longest : ∀ more longer, more <+: after → OctalText (digits ++ more) longer → more = [])
      (other : digits = ['0'] → ¬ Undigited after) : Piece ('\\' :: digits) after [value] true
  | itself (c : Char) (after : List Char) (other : c ∉ escapedLetters) : Piece ['\\', c] after (unitsOfChar c) false

/-- The units of a row of pieces, and whether one of them is an octal escape. -/
inductive Decodes : List Char → List Nat → Bool → Prop
  | nothing : Decodes [] [] false
  | more (text after : List Char) (units later : List Nat) (octal others : Bool)
      (piece : Piece text after units octal) (rest : Decodes after later others) :
      Decodes (text ++ after) (units ++ later) (octal || others)

/-- The escape does not have its digits. -/
def Cropped (c : Char) (after : List Char) : Prop :=
  ∃ count, (c, count) ∈ [('x', 2), ('u', 4)] ∧
    ¬ ∃ digits value, digits <+: after ∧ digits.length = count ∧ Numeral 16 digits value

/-- There is an escape without its digits. -/
def Malformed (inside : List Char) : Prop :=
  ∃ before c after, inside = before ++ '\\' :: c :: after ∧ Complete before ∧ Cropped c after

/-! Escapes of octal digits. -/

theorem octal_first (c : Char) (value : Nat) (digit : Digit 8 c value) : c ≤ '3' ↔ value ≤ 3 := by
  obtain ⟨small, is⟩ := digit
  interval_cases value <;> rcases is with is | is <;> cases is <;> decide

theorem octal_value_fits (first : Nat) (digits : List Nat) (small : ∀ digit ∈ first :: digits, digit < 8)
    (short : digits.length ≤ if first ≤ 3 then 2 else 1) :
    (first :: digits).foldl (fun value digit => value * 8 + digit) 0 ≤ 255 := by
  have one := small first List.mem_cons_self
  rcases digits with _ | ⟨second, _ | ⟨third, _ | ⟨fourth, digits⟩⟩⟩
  · rw [List.foldl_cons, List.foldl_nil]
    omega
  · have two := small second (.tail _ List.mem_cons_self)
    rw [List.foldl_cons, List.foldl_cons, List.foldl_nil]
    omega
  · have two := small second (.tail _ List.mem_cons_self)
    have three := small third (.tail _ (.tail _ List.mem_cons_self))
    split at short
    · rw [List.foldl_cons, List.foldl_cons, List.foldl_cons, List.foldl_nil]
      omega
    · cases short
      contradiction
  · rw [List.length_cons, List.length_cons, List.length_cons] at short
    split at short <;> omega

theorem octal_text_short (c : Char) (text : List Char) (value : Nat) (is : OctalText (c :: text) value) :
    text.length ≤ if c ≤ '3' then 2 else 1 := by
  obtain ⟨_, short, ⟨digits, fit, total⟩, small⟩ := is
  rw [of_digits_fold] at total
  have bound := Nat.le_of_succ_le_succ short
  split
  · exact bound
  · rename_i large
    rcases fit with _ | ⟨first, others⟩
    rw [octal_first _ _ first] at large
    rcases others with _ | ⟨_, _ | ⟨_, others⟩⟩
    · exact Nat.zero_le 1
    · exact Nat.le_refl 1
    · cases others with
      | nil =>
        rw [List.foldl_cons, List.foldl_cons, List.foldl_cons, List.foldl_nil] at total
        omega
      | cons =>
        rw [List.length_cons, List.length_cons, List.length_cons] at bound
        omega

theorem octal_text_digits (text : List Char) (value : Nat) (is : OctalText text value) : ∀ c ∈ text, isOctal c = true := by
  obtain ⟨_, _, ⟨digits, fit, _⟩, _⟩ := is
  clear * - fit
  induction fit with
  | nil => exact fun _ none => absurd none List.not_mem_nil
  | cons one _ hyp =>
    intro c member
    rcases List.mem_cons.mp member with rfl | later
    · exact ((octal_digit_is _ _).mp one).1
    · exact hyp c later

theorem octal_text_once (text : List Char) (a b : Nat) (first : OctalText text a) (second : OctalText text b) :
    a = b := by
  obtain ⟨_, _, ⟨digits, fit, rfl⟩, _⟩ := first
  obtain ⟨_, _, ⟨digits', fit', rfl⟩, _⟩ := second
  clear * - fit fit'
  have same : digits = digits' := by
    induction fit generalizing digits' with
    | nil =>
      cases fit'
      rfl
    | cons one _ hyp =>
      cases fit' with
      | cons one' others =>
        rw [hyp _ others, ((octal_digit_is _ _).mp one).2, ((octal_digit_is _ _).mp one').2]
  rw [same]

theorem octal_is_digit (c : Char) (octal : isOctal c = true) : c.isDigit = true ∧ c ∈ escapedLetters := by
  rw [isOctal, Bool.and_eq_true, decide_eq_true_iff, decide_eq_true_iff] at octal
  obtain ⟨k, small, rfl⟩ := char_between _ _ c octal.1 octal.2
  clear octal
  revert k
  decide

/-- What the digits behind an octal digit spell with it, and that there are no more of them. -/
theorem octal_value_text (c : Char) (octal : isOctal c = true) (cs : List Char) (value used : Nat)
    (is : octalValue (if c ≤ '3' then 2 else 1) (c.toNat - 48) cs = (value, used)) :
    ∃ text after, cs = text ++ after ∧ text.length = used ∧ OctalText (c :: text) value ∧
      ∀ more longer, more <+: after → OctalText (c :: (text ++ more)) longer → more = [] := by
  obtain ⟨text, after, digits, rfl, fit, short, same, ends⟩ :=
    octal_value_is (if c ≤ '3' then 2 else 1) (c.toNat - 48) cs
  rw [is] at same
  cases same
  have digit : Digit 8 c (c.toNat - 48) := (octal_digit_is c _).mpr ⟨octal, rfl⟩
  have whole : List.Forall₂ (Digit 8) (c :: text) ((c.toNat - 48) :: digits) := .cons digit fit
  have total : digits.foldl (fun value digit => value * 8 + digit) (c.toNat - 48) =
      ((c.toNat - 48) :: digits).foldl (fun value digit => value * 8 + digit) 0 := by
    rw [List.foldl_cons, Nat.zero_mul, Nat.zero_add]
  have limit : text.length ≤ 2 := by
    split at short <;> omega
  refine ⟨text, after, rfl, rfl, ⟨List.cons_ne_nil _ _, Nat.succ_le_succ limit, ⟨_, whole, ?_⟩, ?_⟩, ?_⟩
  · rw [of_digits_fold, total]
  · rw [total]
    refine octal_value_fits _ digits (digits_small 8 _ _ whole) ?_
    rw [← fit.length_eq]
    simpa only [octal_first c _ digit] using short
  · rintro more longer ⟨later, rfl⟩ number
    have bound := octal_text_short c _ longer number
    cases more with
    | nil => rfl
    | cons d more =>
      rw [List.length_append, List.length_cons] at bound
      have other := ends (by omega) d _ rfl
      rw [octal_text_digits _ _ number d (.tail _ (List.mem_append_right _ List.mem_cons_self))] at other
      cases other

/-! Escapes as pieces. -/

theorem undigited_iff (after : List Char) : Undigited after ↔ after.head?.any Char.isDigit = false := by
  cases after with
  | nil => exact ⟨fun _ => rfl, fun _ _ _ none => by cases none⟩
  | cons c rest =>
    refine ⟨fun last => last c rest rfl, ?_⟩
    rintro last _ _ ⟨rfl⟩
    exact last

theorem escape_piece (c : Char) (after : List Char) (escape : Escape) (is : escapeOf c after = .ok escape) :
    ∃ used rest, after = used ++ rest ∧ used.length = escape.used ∧
      Piece ('\\' :: c :: used) rest escape.units escape.octal := by
  have alone (units : List Nat) (piece : Piece ['\\', c] after units false)
      (is : Except.ok (ε := EarlyError) ⟨units, 0, false⟩ = .ok escape) :
      ∃ used rest, after = used ++ rest ∧ used.length = escape.used ∧
        Piece ('\\' :: c :: used) rest escape.units escape.octal := by
    cases is
    exact ⟨[], after, rfl, rfl, piece⟩
  revert is
  fun_cases escapeOf c after with
  | case1 letter | case2 _ letter | case3 _ _ letter | case4 _ _ _ letter | case5 _ _ _ _ letter
  | case6 _ _ _ _ _ letter =>
    subst letter
    exact alone _ (.single _ _ after (by decide))
  | case7 =>
    subst_vars
    rintro ⟨rfl⟩
    cases after with
    | nil => exact ⟨[], [], rfl, rfl, .continued _ _ (.carriage [] fun _ none => by cases none)⟩
    | cons d rest =>
      by_cases feed : d = '\n'
      · subst feed
        exact ⟨['\n'], rest, rfl, rfl, .continued _ _ (.double rest)⟩
      · refine ⟨[], d :: rest, rfl, ?_, .continued _ _ (.carriage _ ?_)⟩
        · rw [List.head?_cons, if_neg fun same => feed (Option.some.inj same)]
          rfl
        · rintro _ ⟨rfl⟩
          exact feed rfl
  | case8 _ _ _ _ _ _ _ line =>
    refine alone _ (.continued [c] after (.single c after ?_))
    simpa only [List.mem_cons, List.not_mem_nil, or_false] using line
  | case9 _ _ _ _ _ _ _ _ letter value found | case11 _ _ _ _ _ _ _ _ _ letter value found =>
    subst letter
    rintro ⟨rfl⟩
    obtain ⟨digits, ⟨rest, same⟩, long, number⟩ := (hex_numeral _ after value).mp found
    first
      | exact ⟨digits, rest, same.symm, long, .hexadecimal digits rest value long number⟩
      | exact ⟨digits, rest, same.symm, long, .unicode digits rest value long number⟩
  | case10 | case12 =>
    intro fails
    cases fails
  | case13 _ _ _ _ _ _ _ _ _ _ _ nul =>
    obtain ⟨rfl, last⟩ := nul
    exact alone _ (.nul after ((undigited_iff after).mpr (by simpa only [Bool.not_eq_true'] using last)))
  | case14 _ _ _ _ _ _ _ _ _ _ octal other value used found =>
    rintro ⟨rfl⟩
    obtain ⟨text, rest, rfl, long, number, longest⟩ := octal_value_text c octal after value used found
    refine ⟨text, rest, rfl, long, .octal (c :: text) rest value number longest ?_⟩
    rintro ⟨rfl, rfl⟩ last
    exact other ⟨rfl, by rw [List.nil_append, (undigited_iff rest).mp last]; rfl⟩
  | case15 =>
    refine alone _ (.itself c after fun known => ?_)
    simp only [escapedLetters, namedEscapes, List.cons_append, List.nil_append, List.mem_cons, List.not_mem_nil,
      or_false] at known
    rcases known with rfl | rfl | rfl | rfl | rfl | rfl | rfl | rfl | rfl | rfl | rfl | rfl | rfl | rfl | rfl | rfl |
      rfl | rfl | rfl | rfl <;> contradiction

theorem escape_x (after : List Char) :
    escapeOf 'x' after =
      match hexValue? 2 0 after with
      | some value => .ok { units := [value], used := 2 }
      | none => .error .hexEscape :=
  rfl

theorem escape_u (after : List Char) :
    escapeOf 'u' after =
      match hexValue? 4 0 after with
      | some value => .ok { units := [value], used := 4 }
      | none => .error .unicodeEscape :=
  rfl

/-- How a piece is read: it is a character, or an escape with the characters that it takes. -/
theorem piece_escape (text after : List Char) (units : List Nat) (octal : Bool) (piece : Piece text after units octal) :
    (∃ c, text = [c] ∧ c ≠ '\\' ∧ units = unitsOfChar c ∧ octal = false) ∨
      ∃ c used, text = '\\' :: c :: used ∧ escapeOf c (used ++ after) = .ok ⟨units, used.length, octal⟩ := by
  cases piece with
  | plain c after other => exact .inl ⟨c, rfl, other, rfl, rfl⟩
  | single c unit after known =>
    refine .inr ⟨c, [], rfl, ?_⟩
    simp only [singleEscapes, List.mem_cons, List.not_mem_nil, or_false, Prod.mk.injEq] at known
    rcases known with ⟨rfl, rfl⟩ | ⟨rfl, rfl⟩ | ⟨rfl, rfl⟩ | ⟨rfl, rfl⟩ | ⟨rfl, rfl⟩ | ⟨rfl, rfl⟩ <;> rfl
  | hexadecimal digits after value two number =>
    refine .inr ⟨'x', digits, rfl, ?_⟩
    have found := (hex_numeral 2 (digits ++ after) value).mpr ⟨digits, ⟨after, rfl⟩, two, number⟩
    rw [escape_x, found, two]
  | unicode digits after value four number =>
    refine .inr ⟨'u', digits, rfl, ?_⟩
    have found := (hex_numeral 4 (digits ++ after) value).mpr ⟨digits, ⟨after, rfl⟩, four, number⟩
    rw [escape_u, found, four]
  | continued line after ends =>
    cases ends with
    | single c after ends =>
      refine .inr ⟨c, [], rfl, ?_⟩
      simp only [List.mem_cons, List.not_mem_nil, or_false] at ends
      rcases ends with rfl | rfl | rfl <;> rfl
    | double after => exact .inr ⟨'\r', ['\n'], rfl, rfl⟩
    | carriage after alone =>
      refine .inr ⟨'\r', [], rfl, ?_⟩
      have other : after.head? ≠ some '\n' := by
        cases after with
        | nil => exact fun none => by cases none
        | cons d rest => exact fun same => alone rest (by rw [Option.some.inj same])
      change Except.ok (ε := EarlyError) (Escape.mk [] (if after.head? = some '\n' then 1 else 0) false) = _
      rw [if_neg other]
      rfl
  | nul after last =>
    refine .inr ⟨'0', [], rfl, ?_⟩
    have nul : !(after.head?.any Char.isDigit) := by
      rw [(undigited_iff after).mp last]
      rfl
    rw [escape_unnamed '0' _ (by decide), if_pos (by decide), if_pos ⟨rfl, nul⟩]
    rfl
  | octal digits after value number longest other =>
    cases digits with
    | nil => exact absurd rfl number.solid
    | cons c text =>
      refine .inr ⟨c, text, rfl, ?_⟩
      have octal := octal_text_digits _ value number c List.mem_cons_self
      have digited : ¬ (c = '0' ∧ !((text ++ after).head?.any Char.isDigit)) := by
        rintro ⟨rfl, last⟩
        rw [Bool.not_eq_true', ← undigited_iff] at last
        cases text with
        | nil => exact other rfl last
        | cons d text =>
          have digit := (octal_is_digit d (octal_text_digits _ value number d (.tail _ List.mem_cons_self))).1
          rw [last d _ rfl] at digit
          cases digit
      rw [escape_unnamed c _ (octal_unnamed c octal), if_pos octal, if_neg digited]
      obtain ⟨text', after', same, long, number', longest'⟩ := octal_value_text c octal (text ++ after) _ _ rfl
      -- Neither text goes on where the other one ends.
      have whole : text = text' := by
        rcases List.append_eq_append_iff.mp same with ⟨more, rfl, later⟩ | ⟨more, rfl, later⟩
        · rw [longest more _ ⟨after', later.symm⟩ number', List.append_nil]
        · rw [longest' more _ ⟨after, later.symm⟩ number, List.append_nil]
      subst whole
      rw [octal_text_once _ _ _ number number', long]
  | itself c after other =>
    refine .inr ⟨c, [], rfl, ?_⟩
    rw [List.nil_append]
    have unnamed : c ∉ namedEscapes := fun known => other (List.mem_append_left _ known)
    have plain : ¬ isOctal c = true := fun octal => other (octal_is_digit c octal).2
    rw [escape_unnamed c after unnamed, if_neg plain]
    rfl

/-! Rows of pieces. -/

theorem decode_skip (text after : List Char) : decodeBody text.length (text ++ after) = decodeBody 0 after := by
  induction text with
  | nil => rfl
  | cons c text hyp =>
    rw [List.cons_append, List.length_cons, decodeBody]
    exact hyp

theorem decodes_decode (inside : List Char) (units : List Nat) (octal : Bool) (decodes : Decodes inside units octal) :
    decodeBody 0 inside = .ok (units, octal) := by
  induction decodes with
  | nothing => rfl
  | more text after units later octal others piece _ hyp =>
    rcases piece_escape text after units octal piece with ⟨c, rfl, other, rfl, rfl⟩ | ⟨c, used, rfl, is⟩
    · rw [List.singleton_append, decodeBody.eq_def]
      dsimp only
      rw [if_neg other, hyp]
      rfl
    · rw [List.cons_append, List.cons_append, decodeBody, if_pos rfl, is]
      dsimp only
      rw [decodeBody, decode_skip, hyp]

theorem decode_decodes (skip : Nat) (inside : List Char) (units : List Nat) (octal : Bool)
    (is : decodeBody skip inside = .ok (units, octal)) : Decodes (inside.drop skip) units octal := by
  fun_induction decodeBody skip inside generalizing units octal with
  | case1 =>
    cases is
    rw [List.drop_nil]
    exact .nothing
  | case2 skip c rest hyp => exact hyp units octal is
  | case3 | case4 => cases is
  | case5 c after escape found cause fails =>
    rw [fails] at is
    cases is
  | case6 c after escape found later others inner hyp =>
    rw [inner] at is
    cases is
    obtain ⟨used, rest, rfl, long, piece⟩ := escape_piece c after escape found
    have more := hyp later others inner
    rw [List.drop_succ_cons, List.drop_left' long] at more
    exact .more _ _ _ _ _ _ piece more
  | case7 => cases is
  | case8 c rest other later others inner hyp =>
    cases is
    exact .more [c] rest _ _ false _ (.plain c rest other) (hyp later others inner)

theorem numeral_small (count : Nat) (text : List Char) (value : Nat) (few : text.length ≤ count)
    (number : Numeral 16 text value) : value < 16 ^ count := by
  obtain ⟨digits, fit, rfl⟩ := number
  have each (digit : Nat) (member : digit ∈ digits.reverse) : digit < 16 :=
    digits_small 16 text digits fit digit (List.mem_reverse.mp member)
  refine Nat.lt_of_lt_of_le (Nat.ofDigits_lt_base_pow_length (by decide) each) ?_
  rw [List.length_reverse, ← fit.length_eq]
  exact Nat.pow_le_pow_right (by decide) few

theorem unit_of_char_small (c : Char) : ∀ unit ∈ unitsOfChar c, unit < 0x10000 := by
  have scalar := char_scalar c
  intro unit member
  rw [unitsOfChar] at member
  split at member
  · rw [List.mem_singleton.mp member]
    assumption
  · simp only [List.mem_cons, List.not_mem_nil, or_false] at member
    omega

theorem piece_small (text after : List Char) (units : List Nat) (octal : Bool) (piece : Piece text after units octal) :
    ∀ unit ∈ units, unit < 0x10000 := by
  cases piece with
  | plain c | itself c => exact unit_of_char_small c
  | single c unit _ known =>
    intro _ member
    rw [List.mem_singleton.mp member]
    simp only [singleEscapes, List.mem_cons, List.not_mem_nil, or_false, Prod.mk.injEq] at known
    omega
  | hexadecimal digits _ value two number =>
    intro _ member
    rw [List.mem_singleton.mp member]
    exact numeral_small 4 digits value (by omega) number
  | unicode digits _ value four number =>
    intro _ member
    rw [List.mem_singleton.mp member]
    exact numeral_small 4 digits value (by omega) number
  | continued => exact fun _ none => absurd none List.not_mem_nil
  | nul =>
    intro _ member
    rw [List.mem_singleton.mp member]
    decide
  | octal _ _ value number =>
    intro _ member
    rw [List.mem_singleton.mp member]
    exact Nat.lt_of_le_of_lt number.small (by decide)

theorem decodes_small (inside : List Char) (units : List Nat) (octal : Bool) (decodes : Decodes inside units octal) :
    ∀ unit ∈ units, unit < 0x10000 := by
  induction decodes with
  | nothing => exact fun _ none => absurd none List.not_mem_nil
  | more text after units later octal others piece _ hyp =>
    intro unit member
    rcases List.mem_append.mp member with here | there
    · exact piece_small text after units octal piece unit here
    · exact hyp unit there

/-! Escapes without their digits. -/

theorem hex_value_none (count : Nat) (after : List Char) (unread : hexValue? count 0 after = none) :
    ¬ ∃ digits value, digits <+: after ∧ digits.length = count ∧ Numeral 16 digits value := by
  rintro ⟨digits, value, found⟩
  rw [(hex_numeral count after value).mpr ⟨digits, found⟩] at unread
  cases unread

theorem escape_fails (c : Char) (after : List Char) (cause : EarlyError) (is : escapeOf c after = .error cause) :
    Cropped c after ∧ (cause = .hexEscape ∨ cause = .unicodeEscape) := by
  revert is
  fun_cases escapeOf c after with
  | case10 _ _ _ _ _ _ _ _ letter unread =>
    rintro ⟨rfl⟩
    subst letter
    exact ⟨⟨2, by decide, hex_value_none 2 after unread⟩, .inl rfl⟩
  | case12 _ _ _ _ _ _ _ _ _ letter unread =>
    rintro ⟨rfl⟩
    subst letter
    exact ⟨⟨4, by decide, hex_value_none 4 after unread⟩, .inr rfl⟩
  | _ =>
    intro contra
    cases contra

theorem cropped_fails (c : Char) (after : List Char) (cropped : Cropped c after) (escape : Escape) :
    escapeOf c after ≠ .ok escape := by
  intro is
  obtain ⟨count, known, absent⟩ := cropped
  have unread : hexValue? count 0 after = none := by
    refine Option.eq_none_iff_forall_ne_some.mpr fun value found => ?_
    obtain ⟨digits, number⟩ := (hex_numeral count after value).mp found
    exact absent ⟨digits, value, number⟩
  simp only [List.mem_cons, List.not_mem_nil, or_false, Prod.mk.injEq] at known
  rcases known with ⟨rfl, rfl⟩ | ⟨rfl, rfl⟩
  · rw [escape_x, unread] at is
    cases is
  · rw [escape_u, unread] at is
    cases is

theorem complete_append (before after : List Char) (first : Complete before) (second : Complete after) :
    Complete (before ++ after) := by
  induction first with
  | nothing => exact second
  | plain c rest other _ hyp => exact .plain c _ other hyp
  | escape c rest _ hyp => exact .escape c _ hyp

theorem complete_clear (cs : List Char) (clear : '\\' ∉ cs) : Complete cs := by
  induction cs with
  | nil => exact .nothing
  | cons c cs hyp =>
    exact .plain c cs (fun same => clear (by rw [same]; exact List.mem_cons_self))
      (hyp fun member => clear (List.mem_cons_of_mem _ member))

theorem complete_drop (count : Nat) (cs : List Char) (complete : Complete cs) (clear : Clear count cs) :
    Complete (cs.drop count) := by
  induction complete generalizing count with
  | nothing =>
    rw [List.drop_nil]
    exact .nothing
  | plain c rest other complete hyp =>
    cases count with
    | zero => exact .plain c rest other complete
    | succ count =>
      exact hyp count ⟨Nat.le_of_succ_le_succ clear.1, fun member => clear.2 (List.mem_cons_of_mem _ member)⟩
  | escape c rest complete hyp =>
    cases count with
    | zero => exact .escape c rest complete
    | succ count => exact absurd List.mem_cons_self clear.2

theorem decode_fails (skip : Nat) (inside : List Char) (cause : EarlyError)
    (complete : Complete (inside.drop skip)) (is : decodeBody skip inside = .error cause) :
    Malformed (inside.drop skip) ∧ (cause = .hexEscape ∨ cause = .unicodeEscape) := by
  fun_induction decodeBody skip inside generalizing cause with
  | case1 => cases is
  | case2 skip c rest hyp => exact hyp cause complete is
  | case3 =>
    generalize alone : List.drop 0 ['\\'] = whole at complete
    cases complete with
    | plain c rest other =>
      cases alone
      exact absurd rfl other
    | _ => cases alone
  | case4 c after cause found =>
    cases is
    obtain ⟨cropped, kind⟩ := escape_fails c after cause found
    exact ⟨⟨[], c, after, rfl, .nothing, cropped⟩, kind⟩
  | case5 c after escape found cause fails hyp =>
    rw [fails] at is
    cases is
    have clear := escape_clear c after escape found
    have shorter : Complete (after.drop escape.used) := by
      generalize same : List.drop 0 ('\\' :: c :: after) = whole at complete
      cases complete with
      | plain d rest other =>
        cases same
        exact absurd rfl other
      | escape d rest complete =>
        cases same
        exact complete_drop escape.used after complete clear
      | nothing => cases same
    obtain ⟨⟨before, d, later, same, closed, cropped⟩, kind⟩ := hyp cause shorter fails
    refine ⟨⟨'\\' :: c :: (after.take escape.used ++ before), d, later, ?_,
      .escape c _ (complete_append _ _ (complete_clear _ clear.2) closed), cropped⟩, kind⟩
    rw [List.drop_succ_cons] at same
    rw [List.drop_zero, List.cons_append, List.cons_append, List.append_assoc, ← same, List.take_append_drop]
  | case6 c after escape found units octal inner =>
    rw [inner] at is
    cases is
  | case7 c rest other cause fails hyp =>
    cases is
    have shorter : Complete rest := by
      generalize same : List.drop 0 (c :: rest) = whole at complete
      cases complete with
      | plain d rest _ complete =>
        cases same
        exact complete
      | escape d rest =>
        cases same
        exact absurd rfl other
      | nothing => cases same
    obtain ⟨⟨before, d, later, same, closed, cropped⟩, kind⟩ := hyp cause shorter fails
    exact ⟨⟨c :: before, d, later, congrArg (c :: ·) same, .plain c before other closed, cropped⟩, kind⟩
  | case8 => cases is

theorem decode_malformed (inside : List Char) (malformed : Malformed inside) (result : List Nat × Bool) :
    decodeBody 0 inside ≠ .ok result := by
  intro is
  obtain ⟨before, c, after, rfl, complete, cropped⟩ := malformed
  obtain ⟨escape, found, _⟩ := decode_escape_at before complete c after 0 (clear_zero before) result.1 result.2 is
  exact cropped_fails c after cropped escape found

/-! Literals. -/

theorem quoted_text (quote : Char) (cs : List Char) (spells : (Es.quoted quote).Spells cs) :
    ∃ inside, cs = quote :: inside ++ [quote] ∧ Complete inside := by
  obtain ⟨_, _, rfl, rfl, inside, _, rfl, ⟨pieces, rfl, parts⟩, rfl⟩ := spells
  refine ⟨pieces.flatten, rfl, ?_⟩
  induction pieces with
  | nil => exact .nothing
  | cons piece pieces hyp =>
    refine complete_append piece _ ?_ (hyp fun later member => parts later (List.mem_cons_of_mem _ member))
    rcases parts piece List.mem_cons_self with ⟨c, plain, rfl⟩ | ⟨_, _, rfl, rfl, rfl | ⟨c, _, rfl⟩⟩
    · refine .plain c [] ?_ .nothing
      rintro rfl
      dsimp only at plain
      rw [beq_self_eq_true, Bool.or_true, Bool.true_or] at plain
      cases plain
    · exact .escape '\r' ['\n'] (.plain '\n' [] (by decide) .nothing)
    · exact .escape c [] .nothing

/-- The text of a string literal is a quote, complete characters and escapes, and the quote again. -/
theorem literal_text (mode : Mode) (quiet : Bool) (literal rest : List Char) (place : Nat) (m : Match Rule)
    (found : Matches ecmascript mode quiet (.rule .stringLiteral) (literal ++ rest) place (some m))
    (left : m.rest = rest) :
    ∃ quote inside, (quote = '"' ∨ quote = '\'') ∧ literal = quote :: inside ++ [quote] ∧ Complete inside := by
  obtain ⟨n, inner, rfl⟩ := rule_matched ecmascript _ _ _ _ _ m found
  change Matches ecmascript .token quiet (Es.body .stringLiteral) _ _ _ at inner
  obtain ⟨cs, takes, spells⟩ := match_takes ecmascript _ _ _ _ _ _ inner n rfl
  have same : literal = cs := by
    have whole := takes.1
    rw [show n.rest = rest from left] at whole
    exact List.append_cancel_right whole
  subst same
  rcases spells rfl with double | single
  · obtain ⟨inside, same, complete⟩ := quoted_text '"' literal double
    exact ⟨'"', inside, .inl rfl, same, complete⟩
  · obtain ⟨inside, same, complete⟩ := quoted_text '\'' literal single
    exact ⟨'\'', inside, .inr rfl, same, complete⟩

theorem decode_string_is (quote : Char) (inside : List Char) :
    decodeString (quote :: inside ++ [quote]) =
      match decodeBody 0 inside with
      | .error cause => .error cause
      | .ok (units, octal) => .ok (ofUnits units, octal) := by
  have long : ¬ (quote :: inside ++ [quote]).length < 2 := by
    rw [List.length_append, List.length_cons, List.length_singleton]
    omega
  have inner : ((quote :: inside ++ [quote]).drop 1).dropLast = inside := by
    rw [List.cons_append, List.drop_one, List.tail_cons, List.dropLast_concat]
  rw [decodeString, if_neg long]
  generalize ((quote :: inside ++ [quote]).drop 1).dropLast = body at inner
  subst inner
  rfl

/--
The value of a string literal. It has none when an escape lacks its digits; otherwise it is what the units
of its pieces encode.
-/
theorem string_literal_value (mode : Mode) (quiet : Bool) (literal rest : List Char) (place : Nat) (m : Match Rule)
    (found : Matches ecmascript mode quiet (.rule .stringLiteral) (literal ++ rest) place (some m))
    (left : m.rest = rest) :
    ∃ quote inside, (quote = '"' ∨ quote = '\'') ∧ literal = quote :: inside ++ [quote] ∧
      ((∃ cause, decodeString literal = .error cause) ↔ Malformed inside) ∧
      (∀ cause, decodeString literal = .error cause → cause = .hexEscape ∨ cause = .unicodeEscape) ∧
      ∀ value octal, decodeString literal = .ok (value, octal) ↔
        ∃ units, Decodes inside units octal ∧ Lossy units value.toList := by
  obtain ⟨quote, inside, kind, rfl, complete⟩ := literal_text mode quiet literal rest place m found left
  refine ⟨quote, inside, kind, rfl, ?_⟩
  rw [decode_string_is]
  cases decoded : decodeBody 0 inside with
  | error cause =>
    obtain ⟨malformed, kind⟩ := decode_fails 0 inside cause complete decoded
    refine ⟨⟨fun _ => malformed, fun _ => ⟨cause, rfl⟩⟩, ?_, fun value octal => ⟨fun is => (by cases is), ?_⟩⟩
    · rintro _ ⟨rfl⟩
      exact kind
    · rintro ⟨units, decodes, _⟩
      rw [decodes_decode inside units octal decodes] at decoded
      cases decoded
  | ok result =>
    obtain ⟨units, octal⟩ := result
    have decodes := decode_decodes 0 inside units octal decoded
    have lossy := lossy_iff units (decodes_small inside units octal decodes)
    refine ⟨⟨?_, fun malformed => absurd decoded (decode_malformed inside malformed _)⟩, ?_, fun value flag => ⟨?_, ?_⟩⟩
    · rintro ⟨_, fails⟩
      cases fails
    · intro _ fails
      cases fails
    · rintro ⟨rfl, rfl⟩
      refine ⟨units, decodes, (lossy _).mpr ?_⟩
      rw [ofUnits, String.toList_ofList]
    · rintro ⟨units', decodes', lossy'⟩
      rw [decodes_decode inside units' flag decodes'] at decoded
      cases decoded
      have same : ofUnits units = value := by
        rw [ofUnits, (lossy _).mp lossy', String.ofList_toList]
      rw [← same]

theorem string_literal_value_pair :
    ∃ units, Decodes "\\uD83D\\uDE00\\101\\0".toList units true ∧ Lossy units "😀A\x00".toList := by
  obtain ⟨next, inner⟩ := leaves_some .token false 0 (Es.body .stringLiteral)
    "'\\uD83D\\uDE00\\101\\0'".toList [] (string_leaves .token false 0 token_dry _)
  obtain ⟨quote, inside, _, same, _, _, value⟩ := string_literal_value .tight false
    "'\\uD83D\\uDE00\\101\\0'".toList [] 0 _
    (.ruleMatches .tight false Rule.stringLiteral _ 0 ⟨[], next, []⟩ inner) rfl
  obtain ⟨rfl, tail⟩ := List.cons_eq_cons.mp same
  have tail : "\\uD83D\\uDE00\\101\\0".toList ++ "'".toList = inside ++ "'".toList := tail
  rw [(List.append_inj' tail rfl).1]
  exact (value _ _).mp (by decide)

end Ecma.Syntax
