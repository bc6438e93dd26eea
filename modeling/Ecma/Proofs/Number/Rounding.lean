import Mathlib.Algebra.Order.Field.Rat
import Mathlib.Tactic.FieldSimp
import Mathlib.Tactic.NormNum
import Mathlib.Tactic.Positivity
import Mathlib.Tactic.IntervalCases
import Ecma.Number.Reading
import Ecma.Number.Shortest
import Ecma.Proofs.Number.Whole

set_option autoImplicit false

/-!
Rounding. The rational numbers that round to a given number are those that are no further from it than half the way to
its neighbours, the ends included when its mantissa is even. Rounding finds the number for each of them. A decimal is a
product or a quotient with a power of ten; both are computed with enough bits behind the mantissa, so that what a decimal
is read as is the number that its value rounds to.
-/

namespace Ecma.Number

open Float.Model UnpackedFloat

/-! What the bits behind a mantissa say. -/

/-- The mantissa is the whole part of a number, the round bit tells on which side of the middle it lies, and the sticky
bit whether it is more than the mantissa and the round bit make. -/
def Locates (em : ExtendedMantissa) (v : ℚ) : Prop :=
  match em.roundBit, em.stickyBit with
  | false, false => v = em.mantissa
  | false, true => em.mantissa < v ∧ v < em.mantissa + 1 / 2
  | true, false => v = em.mantissa + 1 / 2
  | true, true => em.mantissa + 1 / 2 < v ∧ v < em.mantissa + 1

theorem located_bounds (em : ExtendedMantissa) (v : ℚ) (located : Locates em v) :
    em.mantissa ≤ v ∧ v < em.mantissa + 1 := by
  obtain ⟨m, round, sticky⟩ := em
  cases round <;> cases sticky <;> simp only [Locates] at located ⊢ <;> constructor <;> linarith

theorem located_half (em : ExtendedMantissa) (v : ℚ) (located : Locates em v) : Locates em.shiftRightOne (v / 2) := by
  obtain ⟨m, round, sticky⟩ := em
  have halved (last : Bool) (bit : (m % 2 != 0) = last) :
      ExtendedMantissa.shiftRightOne ⟨m, round, sticky⟩ = ⟨m / 2, last, round || sticky⟩ := by
    rw [ExtendedMantissa.shiftRightOne, bit]
  have parts : (m : ℚ) = 2 * (m / 2 : Nat) + (m % 2 : Nat) := by
    exact_mod_cast (Nat.div_add_mod m 2).symm
  rcases Nat.mod_two_eq_zero_or_one m with even | odd
  · rw [even, Nat.cast_zero, add_zero] at parts
    rw [halved false (by rw [even]; rfl)]
    cases round <;> cases sticky <;> simp only [Locates, Bool.or_false, Bool.or_true] at located ⊢ <;>
      first
      | (constructor <;> linarith)
      | linarith
  · rw [odd, Nat.cast_one] at parts
    rw [halved true (by rw [odd]; rfl)]
    cases round <;> cases sticky <;> simp only [Locates, Bool.or_false, Bool.or_true] at located ⊢ <;>
      first
      | (constructor <;> linarith)
      | linarith

theorem located_shifted (em : ExtendedMantissa) (v : ℚ) (located : Locates em v) (k : Nat) :
    Locates (em >>> k) (v / 2 ^ k) := by
  induction k with
  | zero => rwa [pow_zero, div_one]
  | succ k hyp =>
    have half := located_half _ _ hyp
    rwa [div_div, ← pow_succ] at half

/-- No further from a natural number than a half, and not a half from an odd one. -/
structure Nearest (m : Nat) (v : ℚ) : Prop where
  least : m - 1 / 2 ≤ v
  most : v ≤ m + 1 / 2
  ties : m % 2 = 1 → m - 1 / 2 < v ∧ v < m + 1 / 2

theorem located_rounded (em : ExtendedMantissa) (v : ℚ) (m : Nat) (located : Locates em v) (nearest : Nearest m v) :
    em.roundedMantissa = m := by
  obtain ⟨M, round, sticky⟩ := em
  obtain ⟨least, most, ties⟩ := nearest
  have between (low high : Nat) (above : (low : ℚ) < m + 1) (below : (m : ℚ) < high + 1) : low ≤ m ∧ m ≤ high := by
    have above' : low < m + 1 := by
      exact_mod_cast above
    have below' : m < high + 1 := by
      exact_mod_cast below
    omega
  cases round <;> cases sticky <;>
    simp only [Locates, ExtendedMantissa.roundedMantissa, ExtendedMantissa.accuracy, Accuracy.roundToNearestEven]
      at located ⊢
  · obtain ⟨low, high⟩ := between M M (by linarith) (by linarith)
    omega
  · obtain ⟨low, high⟩ := between M M (by linarith) (by linarith)
    omega
  · obtain ⟨low, high⟩ := between M (M + 1) (by linarith) (by push_cast; linarith)
    have even : m % 2 = 0 := by
      rcases Nat.mod_two_eq_zero_or_one m with even | odd
      · exact even
      · obtain ⟨left, right⟩ := ties odd
        have strict : M < m := by
          have less : (M : ℚ) < m := by
            linarith
          exact_mod_cast less
        have strict' : m < M + 1 := by
          have less : (m : ℚ) < M + 1 := by
            linarith
          exact_mod_cast less
        omega
    omega
  · obtain ⟨low, high⟩ := between (M + 1) (M + 1) (by push_cast; linarith) (by push_cast; linarith)
    omega

/-! Numbers by their parts. -/

/-- A mantissa and an exponent as the format has them: the mantissa is full unless the exponent is the least one. -/
structure Canonical (m : Nat) (e : Int) : Prop where
  positive : 0 < m
  bounded : m < 2 ^ 53
  full : 2 ^ 52 ≤ m ∨ e = -1074
  least : -1074 ≤ e
  most : e ≤ 971

theorem unpack_range (b : BitVec 64) (sign : Sign) (m : Nat) (e : Int) (pos : 0 < m)
    (parts : UnpackedFloat.unpack Format.binary64 b = .finite sign m e pos) : -1074 ≤ e ∧ e ≤ 971 := by
  have bound := (exponentOf b).isLt
  delta UnpackedFloat.unpack at parts
  dsimp only at parts
  by_cases special : exponentOf b = -1#11
  · rw [exponentOf] at special
    rw [if_pos special] at parts
    by_cases infinite : @unpackMantissa Format.binary64 b = 0#_
    · rw [if_pos infinite] at parts
      cases parts
    · rw [if_neg infinite] at parts
      cases parts
  · have other : (exponentOf b).toNat ≠ 2047 := fun same => special (BitVec.eq_of_toNat_eq same)
    rw [exponentOf] at special other bound
    rw [if_neg special] at parts
    by_cases least : @unpackExponent Format.binary64 b = 0#_
    · rw [if_pos least] at parts
      by_cases none : @unpackMantissa Format.binary64 b = 0#_
      · rw [dif_pos none] at parts
        cases parts
      · rw [dif_neg none] at parts
        injection parts with _ _ exponent
        rw [← exponent, least]
        decide
    · rw [if_neg least] at parts
      have nonzero : (@unpackExponent Format.binary64 b).toNat ≠ 0 := fun same => least (BitVec.eq_of_toNat_eq same)
      injection parts with _ _ exponent
      have bias : (Format.exponentBias Format.binary64 : Int) + (52 : Nat) = 1075 := by
        decide
      omega

theorem unpack_canonical (x : Float) (sign : Sign) (m : Nat) (e : Int) (pos : 0 < m)
    (parts : x.toModel.unpack = .finite sign m e pos) : Canonical m e := by
  obtain ⟨bounded, full⟩ := unpack_bounds x sign m e pos parts
  obtain ⟨least, most⟩ := unpack_range _ sign m e pos parts
  exact ⟨pos, bounded, full, least, most⟩

theorem pack_canonical (sign : Sign) (m : Nat) (e : Int) (pos : 0 < m) (canonical : Canonical m e) :
    (Float.Model.pack (.finite sign m e pos)).unpack = .finite sign m e pos := by
  by_cases full : 2 ^ 52 ≤ m
  · exact unpack_pack sign m e pos full canonical.bounded canonical.least canonical.most
  · obtain rfl : e = -1074 := canonical.full.resolve_left full
    have log : m.log2 ≠ 52 := fun same => full ((Nat.log2_eq_iff (Nat.ne_of_gt pos)).mp same).1
    have packed : UnpackedFloat.pack Format.binary64 (.finite sign m (-1074) pos) =
        packComponents Format.binary64 sign (0#11) (BitVec.ofNat _ m) := by
      have width : Format.mantissaBits Format.binary64 = 53 := by
        rfl
      delta UnpackedFloat.pack
      dsimp only
      rw [if_neg (by decide), width, if_neg (by omega)]
    generalize bits : UnpackedFloat.pack Format.binary64 (.finite sign m (-1074) pos) = b at packed
    have exponents : exponentOf b = 0#11 := by
      rw [exponentOf, packed, unpackExponent_packComponents]
    have mantissas : (mantissaOf b).toNat = m := by
      rw [mantissaOf, packed, unpackMantissa_packComponents, BitVec.toNat_ofNat]
      omega
    have signs : signOf b = sign.toBitVec := by
      rw [packed, sign_packed]
    have parts := unpacks b
    generalize unpacked : UnpackedFloat.unpack Format.binary64 b = p at parts
    have same : (Float.Model.pack (.finite sign m (-1074) pos)).unpack = p := by
      rw [← unpacked, ← bits]
      rfl
    rw [same]
    cases p with
    | infinity s => exact absurd (exponents.symm.trans parts.1) (by decide)
    | notANumber => exact absurd (exponents.symm.trans parts.1) (by decide)
    | zero s =>
      rw [parts.2.1] at mantissas
      exact absurd mantissas (Nat.ne_of_lt pos)
    | finite s m' e' pos' =>
      have canonical' := unpack_canonical (Float.ofModel (Float.Model.pack (.finite sign m (-1074) pos))) s m' e' pos' same
      obtain ⟨rfl, ⟨_, rfl⟩ | ⟨exponent, _⟩⟩ := parts
      · obtain rfl : e' = -1074 := canonical'.full.resolve_left (by omega)
        subst mantissas
        rw [signs, sign_kept]
      · have least := canonical'.least
        rw [exponents] at exponent
        change (0 : Int) = _ at exponent
        omega

theorem negative_parts (x : Float) (sign : Sign) (m : Nat) (e : Int) (pos : 0 < m)
    (parts : x.toModel.unpack = .finite sign m e pos) : (-x).toModel.unpack = .finite (-sign) m e pos := by
  change (Float.Model.pack x.toModel.unpack.neg).unpack = _
  rw [parts]
  exact pack_canonical _ m e pos (unpack_canonical x sign m e pos parts)

/-! Shifting to the place that the format has for a mantissa. -/

theorem fits_kept (m : Nat) (e : Int) (canonical : Canonical m e) :
    shiftToTargetExponent Format.binary64 m e .exact = (⟨m, false, false⟩, e) := by
  have nonzero : m ≠ 0 := Nat.ne_of_gt canonical.positive
  have target : Format.binary64.targetExponent (totalExponent m e) = e := by
    rw [totalExponent, Format.targetExponent]
    change max ((m.log2 : Int) + 1 + e - 53) (-1074) = e
    have short : m.log2 < 53 := (Nat.log2_lt nonzero).mpr canonical.bounded
    have least := canonical.least
    rcases canonical.full with full | lowest
    · have long : 52 ≤ m.log2 := (Nat.le_log2 nonzero).mpr full
      omega
    · omega
  rw [shiftToTargetExponent, target, shiftToExponent, Int.sub_self, Prod.mk.injEq]
  exact ⟨rfl, Int.add_zero e⟩

theorem overflow_shifted (e : Int) (normal : -1074 < e) :
    shiftToTargetExponent Format.binary64 (2 ^ 53) (e - 1) .exact = (⟨2 ^ 52, false, false⟩, e) := by
  have target : Format.binary64.targetExponent (totalExponent (2 ^ 53) (e - 1)) = e := by
    rw [totalExponent, Format.targetExponent, Nat.log2_two_pow]
    change max (((53 : Nat) : Int) + 1 + (e - 1) - 53) (-1074) = e
    omega
  have amount : (e - (e - 1)).toNat = 1 := by
    omega
  rw [shiftToTargetExponent, target, shiftToExponent, amount, Prod.mk.injEq]
  exact ⟨rfl, Int.sub_add_cancel e 1⟩

/-! The numbers that round to a number. -/

def lowEnd (s : Scaled) : ℚ :=
  (4 * s.mantissa - (reach s).1) * 2 ^ (s.exponent - 2)

def highEnd (s : Scaled) : ℚ :=
  (4 * s.mantissa + (reach s).2) * 2 ^ (s.exponent - 2)

def Above (s : Scaled) (v : ℚ) : Prop :=
  lowEnd s < v ∨ s.mantissa % 2 = 0 ∧ lowEnd s = v

def Below (s : Scaled) (v : ℚ) : Prop :=
  v < highEnd s ∨ s.mantissa % 2 = 0 ∧ v = highEnd s

/-- The numbers that round to a number lie between two ends, which round to it themselves when its mantissa is even. -/
structure Rounds (s : Scaled) (v : ℚ) : Prop where
  above : Above s v
  below : Below s v

theorem two_power_pos (e : Int) : (0 : ℚ) < 2 ^ e :=
  zpow_pos two_pos e

theorem two_power_add (e f : Int) : (2 : ℚ) ^ (e + f) = 2 ^ e * 2 ^ f :=
  zpow_add₀ two_ne_zero e f

theorem quarter_power (e : Int) : (2 : ℚ) ^ (e - 2) = 2 ^ e / 4 := by
  rw [zpow_sub₀ two_ne_zero]
  norm_num

theorem mantissa_bounds (m : Nat) (e : Int) (accuracy : Accuracy) (v : ℚ)
    (located : Locates (ExtendedMantissa.ofMantissaAndAccuracy m accuracy) (v / 2 ^ e)) :
    (m = 0 ∨ 2 ^ (m.log2 + e) ≤ v) ∧ v < 2 ^ (m.log2 + e + 1) := by
  have kept : (ExtendedMantissa.ofMantissaAndAccuracy m accuracy).mantissa = m := by
    cases accuracy with
    | exact => rfl
    | inexact order => cases order <;> rfl
  obtain ⟨least, most⟩ := located_bounds _ _ located
  rw [kept] at least most
  have unit := two_power_pos e
  constructor
  · rcases Nat.eq_zero_or_pos m with none | positive
    · exact .inl none
    · have log : (2 : ℚ) ^ m.log2 ≤ m := by
        exact_mod_cast Nat.log2_self_le (Nat.ne_of_gt positive)
      rw [two_power_add, zpow_natCast, ← le_div_iff₀ unit]
      exact .inr (le_trans log least)
  · have log : (m : ℚ) + 1 ≤ 2 ^ (m.log2 + 1) := by
      exact_mod_cast Nat.lt_log2_self
    rw [show (m.log2 : Int) + e + 1 = (m.log2 + 1 : Nat) + e by omega, two_power_add, zpow_natCast, ← div_lt_iff₀ unit]
    exact lt_of_lt_of_le most log

section

variable (s : Scaled) (v : ℚ)

theorem reach_cases : reach s = (1, 2) ∧ s.mantissa = 2 ^ 52 ∨ reach s = (2, 2) := by
  rw [reach]
  split
  · next narrow => exact .inl ⟨rfl, narrow.1⟩
  · exact .inr rfl

theorem ends_counted : lowEnd s = (s.mantissa - ((reach s).1 : ℚ) / 4) * 2 ^ s.exponent ∧
    highEnd s = (s.mantissa + 1 / 2) * 2 ^ s.exponent := by
  have above : (reach s).2 = 2 := by
    rcases reach_cases s with ⟨reaches, _⟩ | reaches <;> rw [reaches]
  rw [lowEnd, highEnd, quarter_power, above]
  push_cast
  constructor <;> ring

theorem rounds_least (rounds : Rounds s v) : lowEnd s ≤ v :=
  rounds.above.elim le_of_lt fun same => le_of_eq same.2

/-- Counted in the unit of the last place, a number that rounds to a mantissa is near to it. -/
theorem rounds_nearest (rounds : Rounds s v) : Nearest s.mantissa (v / 2 ^ s.exponent) := by
  obtain ⟨low, high⟩ := ends_counted s
  have unit := two_power_pos s.exponent
  have least := rounds_least s v rounds
  have most : v ≤ highEnd s := rounds.below.elim le_of_lt fun same => le_of_eq same.2
  have half : ((reach s).1 : ℚ) / 4 ≤ 1 / 2 := by
    rcases reach_cases s with ⟨reaches, _⟩ | reaches <;> rw [reaches] <;> norm_num
  rw [low, ← le_div_iff₀ unit] at least
  rw [high, ← div_le_iff₀ unit] at most
  refine ⟨by linarith, most, fun odd => ?_⟩
  have left := rounds.above.resolve_right fun even => by omega
  have right := rounds.below.resolve_right fun even => by omega
  rw [low, ← lt_div_iff₀ unit] at left
  rw [high, ← div_lt_iff₀ unit] at right
  exact ⟨by linarith, right⟩

/-- Below a power of two the neighbour is nearer. -/
theorem rounds_power (rounds : Rounds s v) (power : s.mantissa = 2 ^ 52) (normal : -1074 < s.exponent) :
    2 ^ 52 - 1 / 4 ≤ v / 2 ^ s.exponent := by
  have least := rounds_least s v rounds
  have reaches : reach s = (1, 2) := by
    rw [reach, if_pos ⟨power, normal⟩]
  rw [(ends_counted s).1, ← le_div_iff₀ (two_power_pos _), reaches, power] at least
  push_cast at least
  exact least

variable (canonical : Canonical s.mantissa s.exponent) (rounds : Rounds s v)
include canonical rounds

theorem target_most (p : Int) (above : 2 ^ p ≤ v) : p - 52 ≤ s.exponent := by
  have most := (rounds_nearest s v rounds).most
  have bounded : (s.mantissa : ℚ) + 1 ≤ 2 ^ 53 := by
    exact_mod_cast canonical.bounded
  have less : (2 : ℚ) ^ p < 2 ^ (53 + s.exponent) := by
    rw [div_le_iff₀ (two_power_pos _)] at most
    rw [two_power_add]
    calc (2 : ℚ) ^ p ≤ v := above
      _ ≤ (s.mantissa + 1 / 2) * 2 ^ s.exponent := most
      _ < 2 ^ 53 * 2 ^ s.exponent := mul_lt_mul_of_pos_right (by linarith) (two_power_pos _)
  have order := (zpow_lt_zpow_iff_right₀ one_lt_two).mp less
  omega

-- A number that rounds up to a power of two may be taken for one with a smaller exponent; its mantissa overflows then.
theorem target_place (t p : Int) (is : t = max (p - 52) (-1074)) (above : t = -1074 ∨ 2 ^ p ≤ v)
    (below : v < 2 ^ (p + 1)) : t = s.exponent ∨
      t = s.exponent - 1 ∧ s.mantissa = 2 ^ 52 ∧ -1074 < s.exponent ∧ v / 2 ^ s.exponent < 2 ^ 52 := by
  have at_most : t ≤ s.exponent := by
    have lowest := canonical.least
    rcases above with low | above
    · omega
    · have most := target_most s v canonical rounds p above
      omega
  rcases Int.lt_or_eq_of_le at_most with less | same
  · right
    have normal : -1074 < s.exponent := by
      omega
    have full : 2 ^ 52 ≤ s.mantissa := canonical.full.resolve_right (by omega)
    have full' : (2 : ℚ) ^ 52 ≤ s.mantissa := by
      exact_mod_cast full
    have least := (rounds_nearest s v rounds).least
    have below' : v / 2 ^ s.exponent < 2 ^ (p + 1 - s.exponent) := by
      rw [zpow_sub₀ two_ne_zero]
      exact div_lt_div_of_pos_right below (two_power_pos _)
    have some' : (2 : ℚ) ^ (51 : Int) < 2 ^ (p + 1 - s.exponent) := by
      have half : (2 : ℚ) ^ (51 : Int) ≤ 2 ^ 52 - 1 / 2 := by
        norm_num
      linarith
    have order := (zpow_lt_zpow_iff_right₀ one_lt_two).mp some'
    have under : v / 2 ^ s.exponent < 2 ^ 52 := by
      have most : (2 : ℚ) ^ (p + 1 - s.exponent) ≤ 2 ^ (52 : Int) := zpow_le_zpow_right₀ one_le_two (by omega)
      exact lt_of_lt_of_le below' (by exact_mod_cast most)
    refine ⟨by omega, ?_, normal, under⟩
    by_contra other
    have more : 2 ^ 52 + 1 ≤ s.mantissa := by
      omega
    have more : (2 : ℚ) ^ 52 + 1 ≤ s.mantissa := by
      exact_mod_cast more
    linarith
  · exact .inl same

/-- What is located by a mantissa of enough bits is rounded to the number that it is near to. -/
theorem round_within (sign : Sign) (m : Nat) (e : Int) (accuracy : Accuracy)
    (located : Locates (ExtendedMantissa.ofMantissaAndAccuracy m accuracy) (v / 2 ^ e))
    (deep : e ≤ Format.binary64.targetExponent (totalExponent m e)) :
    roundWithAccuracy Format.binary64 sign m e accuracy = .finite sign s.mantissa s.exponent canonical.positive := by
  have nonzero : s.mantissa ≠ 0 := Nat.ne_of_gt canonical.positive
  generalize target : Format.binary64.targetExponent (totalExponent m e) = t at deep
  have value : t = max (m.log2 + e - 52) (-1074) := by
    rw [← target, totalExponent, Format.targetExponent]
    change max ((m.log2 : Int) + 1 + e - 53) (-1074) = _
    omega
  have first : shiftToTargetExponent Format.binary64 m e accuracy =
      (ExtendedMantissa.ofMantissaAndAccuracy m accuracy >>> (t - e).toNat, t) := by
    rw [shiftToTargetExponent, target, shiftToExponent, Prod.mk.injEq]
    exact ⟨rfl, by omega⟩
  have shifted := located_shifted _ _ located (t - e).toNat
  rw [div_div, ← zpow_natCast, ← two_power_add, Int.toNat_of_nonneg (by omega), add_sub_cancel] at shifted
  have place : t = s.exponent ∨ t = s.exponent - 1 ∧ s.mantissa = 2 ^ 52 ∧ -1074 < s.exponent ∧
      v / 2 ^ s.exponent < 2 ^ 52 := by
    obtain ⟨least, most⟩ := mantissa_bounds m e accuracy v located
    refine target_place s v canonical rounds t (m.log2 + e) value (least.imp (fun none => ?_) id) most
    rw [none, Nat.log2_zero] at value
    omega
  delta roundWithAccuracy
  dsimp only
  rw [first]
  dsimp only
  rcases place with rfl | ⟨same, power, normal, below⟩
  · rw [located_rounded _ _ _ shifted (rounds_nearest s v rounds), fits_kept s.mantissa s.exponent canonical]
    exact dif_neg nonzero
  · have least := rounds_power s v rounds power normal
    have doubled : v / 2 ^ t = 2 * (v / 2 ^ s.exponent) := by
      rw [same, zpow_sub_one₀ two_ne_zero]
      field_simp
    have nearest : Nearest (2 ^ 53) (v / 2 ^ t) := by
      rw [doubled]
      exact ⟨by push_cast; linarith, by push_cast; linarith, fun odd => absurd odd (by decide)⟩
    rw [located_rounded _ _ _ shifted nearest, same, overflow_shifted s.exponent normal]
    dsimp only
    rw [dif_neg (by decide), UnpackedFloat.finite.injEq]
    exact ⟨rfl, power.symm, rfl⟩

end

/-! Products and quotients. -/

-- A mantissa of 53 bits or more may lose bits only.
theorem deep_enough (m : Nat) (e : Int) (full : 2 ^ 52 ≤ m) :
    e ≤ Format.binary64.targetExponent (totalExponent m e) := by
  have log : 52 ≤ m.log2 := (Nat.le_log2 (by omega)).mpr full
  rw [totalExponent, Format.targetExponent]
  change e ≤ max ((m.log2 : Int) + 1 + e - 53) (-1074)
  omega

theorem fraction_located (m d : Nat) (pos : 0 < d) :
    Locates (ExtendedMantissa.ofMantissaAndAccuracy (m / d) (accuracyOfFraction (m % d) d)) ((m : ℚ) / d) := by
  have parts : (m : ℚ) / d = (m / d : Nat) + ((m % d : Nat) : ℚ) / d := by
    have whole : (m : ℚ) = d * (m / d : Nat) + (m % d : Nat) := by
      exact_mod_cast (Nat.div_add_mod m d).symm
    have nonzero : (d : ℚ) ≠ 0 := by
      exact_mod_cast Nat.ne_of_gt pos
    rw [div_eq_iff nonzero, add_mul, div_mul_cancel₀ _ nonzero, whole, mul_comm]
  have unit : (0 : ℚ) < d := by
    exact_mod_cast pos
  have less : ((m % d : Nat) : ℚ) < d := by
    exact_mod_cast Nat.mod_lt m pos
  rw [parts, accuracyOfFraction]
  generalize m % d = rest at less
  by_cases none : rest = 0
  · rw [if_pos none, none, Nat.cast_zero, zero_div, add_zero]
    rfl
  · have some' : (0 : ℚ) < rest / d := div_pos (by exact_mod_cast Nat.pos_of_ne_zero none) unit
    rw [if_neg none]
    cases order : compare (2 * rest) d with
    | lt =>
      have half : (2 : ℚ) * rest < d := by
        exact_mod_cast compare_lt_iff_lt.mp order
      have half' : (rest : ℚ) / d < 1 / 2 := by
        rw [div_lt_div_iff₀ unit two_pos]
        linarith
      change ((m / d : Nat) : ℚ) < _ ∧ _ < ((m / d : Nat) : ℚ) + 1 / 2
      exact ⟨by linarith, by linarith⟩
    | eq =>
      have half : (2 : ℚ) * rest = d := by
        exact_mod_cast compare_eq_iff_eq.mp order
      have half' : (rest : ℚ) / d = 1 / 2 := by
        rw [div_eq_div_iff (ne_of_gt unit) two_ne_zero]
        linarith
      exact congrArg (_ + ·) half'
    | gt =>
      have half : (d : ℚ) < 2 * rest := by
        exact_mod_cast compare_gt_iff_gt.mp order
      have half' : 1 / 2 < (rest : ℚ) / d := by
        rw [div_lt_div_iff₀ two_pos unit]
        linarith
      have most : (rest : ℚ) / d < 1 := (div_lt_one unit).mpr less
      change ((m / d : Nat) : ℚ) + 1 / 2 < _ ∧ _ < ((m / d : Nat) : ℚ) + 1
      exact ⟨by linarith, by linarith⟩

section

variable (s : Scaled) (canonical : Canonical s.mantissa s.exponent) (m n : Nat) (e f : Int) (pos : 0 < m) (pos' : 0 < n)

theorem product_within (full : 2 ^ 52 ≤ m * n) (rounds : Rounds s ((m * 2 ^ e) * (n * 2 ^ f))) :
    UnpackedFloat.mul Format.binary64 (.finite .positive m e pos) (.finite .positive n f pos') =
      .finite .positive s.mantissa s.exponent canonical.positive := by
  refine round_within s _ canonical rounds _ (m * n) (e + f) .exact ?_ (deep_enough _ _ full)
  change _ = ((m * n : Nat) : ℚ)
  have left := two_power_pos e
  have right := two_power_pos f
  rw [two_power_add]
  push_cast
  field_simp

theorem quotient_within (rounds : Rounds s ((m * 2 ^ e) / (n * 2 ^ f))) :
    UnpackedFloat.div Format.binary64 (.finite .positive m e pos) (.finite .positive n f pos') =
      .finite .positive s.mantissa s.exponent canonical.positive := by
  change roundWithAccuracy Format.binary64 _ (divCore Format.binary64 m e n f).1 (divCore Format.binary64 m e n f).2.1
    (divCore Format.binary64 m e n f).2.2 = _
  rw [divCore]
  dsimp only
  generalize target : Format.binary64.targetExponent (totalExponent m e - totalExponent n f) = target'
  generalize amount : (e - f - min (e - f) target').toNat = k
  have place : min (e - f) target' = e - f - k := by
    omega
  refine round_within s _ canonical rounds _ _ _ _ ?_ ?_
  · have value : (m * 2 ^ e) / (n * 2 ^ f) / (2 : ℚ) ^ min (e - f) target' = ((m <<< k : Nat) : ℚ) / n := by
      have left := two_power_pos e
      have right := two_power_pos f
      have nonzero : (n : ℚ) ≠ 0 := by
        exact_mod_cast Nat.ne_of_gt pos'
      rw [place, zpow_sub₀ two_ne_zero, zpow_sub₀ two_ne_zero, zpow_natCast, Nat.shiftLeft_eq]
      push_cast
      field_simp
    rw [value]
    exact fraction_located _ n pos'
  · rcases lt_or_ge (-1074) (min (e - f) target') with more | least
    · have bits : n.log2 + 1 + 52 ≤ m.log2 + k := by
        rw [totalExponent, totalExponent, Format.targetExponent] at target
        change max ((m.log2 : Int) + 1 + e - (n.log2 + 1 + f) - 53) (-1074) = target' at target
        omega
      refine deep_enough _ _ ((Nat.le_div_iff_mul_le pos').mpr ?_)
      calc 2 ^ 52 * n ≤ 2 ^ 52 * 2 ^ (n.log2 + 1) := Nat.mul_le_mul_left _ (Nat.le_of_lt Nat.lt_log2_self)
        _ = 2 ^ (n.log2 + 1 + 52) := by rw [Nat.mul_comm, ← Nat.pow_add]
        _ ≤ 2 ^ (m.log2 + k) := Nat.pow_le_pow_right two_pos bits
        _ = 2 ^ m.log2 * 2 ^ k := Nat.pow_add ..
        _ ≤ m <<< k := by
            rw [Nat.shiftLeft_eq]
            exact Nat.mul_le_mul_right _ (Nat.log2_self_le (Nat.ne_of_gt pos))
    · rw [Format.targetExponent]
      exact le_trans least (le_max_right _ _)

end

/-! Decimals. -/

theorem ten_power_pos (e : Int) : (0 : ℚ) < 10 ^ e :=
  zpow_pos (by norm_num) e

/-- Whether a number is a power of ten, with no bit lost. -/
def isPowerOfTen (k : Nat) : UnpackedFloat → Bool
  | .finite .positive m e _ => decide (2 ^ 52 ≤ m ∧ -52 ≤ e ∧ m * 2 ^ (e + 52).toNat = 10 ^ k * 2 ^ 52)
  | _ => false

theorem table_exact : ∀ k : Fin Float.exactlyRepresentablePowersOfTen.size,
    isPowerOfTen k Float.exactlyRepresentablePowersOfTen[k].toModel.unpack = true := by
  decide +kernel

theorem power_parts (k : Nat) (parts : UnpackedFloat) (power : isPowerOfTen k parts = true) :
    ∃ (m : Nat) (e : Int) (pos : 0 < m), parts = .finite .positive m e pos ∧ 2 ^ 52 ≤ m ∧ (m : ℚ) * 2 ^ e = 10 ^ k := by
  cases parts with
  | infinity sign => cases power
  | notANumber => cases power
  | zero sign => cases power
  | finite sign m e pos =>
    cases sign with
    | negative => cases power
    | positive =>
      obtain ⟨full, least, value⟩ := of_decide_eq_true power
      refine ⟨m, e, pos, rfl, full, ?_⟩
      have value' : (m : ℚ) * 2 ^ (e + 52).toNat = 10 ^ k * 2 ^ 52 := by
        exact_mod_cast value
      rw [← zpow_natCast, Int.toNat_of_nonneg (by omega), two_power_add, ← mul_assoc] at value'
      exact mul_right_cancel₀ (by norm_num) value'

section

variable (s : Scaled) (v : ℚ) (canonical : Canonical s.mantissa s.exponent) (rounds : Rounds s v)
include canonical rounds

/-- What rounds to a number is neither too large nor too small for the format. -/
theorem rounds_range : 2 ^ (-1075 : Int) ≤ v ∧ v < 2 ^ (1024 : Int) := by
  obtain ⟨least, most, _⟩ := rounds_nearest s v rounds
  have unit := two_power_pos s.exponent
  rw [le_div_iff₀ unit] at least
  rw [div_le_iff₀ unit] at most
  have positive : (1 : ℚ) ≤ s.mantissa := by
    exact_mod_cast canonical.positive
  have bounded : (s.mantissa : ℚ) + 1 ≤ 2 ^ 53 := by
    exact_mod_cast canonical.bounded
  have lowest : (2 : ℚ) ^ (-1074 : Int) ≤ 2 ^ s.exponent := zpow_le_zpow_right₀ one_le_two canonical.least
  have highest : (2 : ℚ) ^ s.exponent ≤ 2 ^ (971 : Int) := zpow_le_zpow_right₀ one_le_two canonical.most
  constructor
  · calc (2 : ℚ) ^ (-1075 : Int) = 1 / 2 * 2 ^ (-1074 : Int) := by
          rw [show (-1075 : Int) = -1074 - 1 by norm_num, zpow_sub_one₀ two_ne_zero, mul_comm, one_div]
      _ ≤ (s.mantissa - 1 / 2) * 2 ^ s.exponent :=
          mul_le_mul (by linarith) lowest (le_of_lt (two_power_pos _)) (by linarith)
      _ ≤ v := least
  · calc v ≤ (s.mantissa + 1 / 2) * 2 ^ s.exponent := most
      _ < 2 ^ 53 * 2 ^ s.exponent := mul_lt_mul_of_pos_right (by linarith) unit
      _ ≤ 2 ^ 53 * 2 ^ (971 : Int) := mul_le_mul_of_nonneg_left highest (by positivity)
      _ = 2 ^ (1024 : Int) := by
          rw [← zpow_natCast, ← two_power_add]
          rfl

-- The checks that keep powers of ten from growing too large do not apply.
theorem power_within (m : Nat) (k : Int) (pos : 0 < m) (value : v = m * 10 ^ k) :
    -((2 ^ 11 : Int) + m.log2) ≤ k ∧ k ≤ 2 ^ 11 := by
  obtain ⟨least, most⟩ := rounds_range s v canonical rounds
  constructor
  · by_contra small
    have log : (m : ℚ) < 2 ^ ((m.log2 : Int) + 1) := by
      exact_mod_cast Nat.lt_log2_self
    have tens : (10 : ℚ) ^ k ≤ 2 ^ k := by
      rw [← neg_neg k, zpow_neg, zpow_neg 2]
      exact inv_anti₀ (two_power_pos _) (zpow_le_zpow_left₀ (by omega) zero_le_two (by norm_num))
    have less : v < 2 ^ ((m.log2 : Int) + 1 + k) := by
      rw [value, two_power_add]
      exact mul_lt_mul log tens (ten_power_pos k) (le_of_lt (two_power_pos _))
    have scale : (2 : ℚ) ^ ((m.log2 : Int) + 1 + k) ≤ 2 ^ (-1075 : Int) := zpow_le_zpow_right₀ one_le_two (by omega)
    linarith
  · by_contra large
    have positive : (1 : ℚ) ≤ m := by
      exact_mod_cast pos
    have scale : (2 : ℚ) ^ (1024 : Int) ≤ 2 ^ k := zpow_le_zpow_right₀ one_le_two (by omega)
    have tens : (2 : ℚ) ^ k ≤ 10 ^ k := zpow_le_zpow_left₀ (by omega) zero_le_two (by norm_num)
    have grown : (10 : ℚ) ^ k ≤ m * 10 ^ k := le_mul_of_one_le_left (le_of_lt (ten_power_pos k)) positive
    linarith

theorem scientific_within (m : Nat) (k : Int) (pos : 0 < m) (value : v = m * 10 ^ k) :
    UnpackedFloat.ofScientific Format.binary64 m k = .finite .positive s.mantissa s.exponent canonical.positive := by
  obtain ⟨least, most⟩ := power_within s v canonical rounds m k pos value
  have tens (n : Nat) : 0 < 10 ^ n := by
    positivity
  rw [UnpackedFloat.ofScientific, dif_neg (Nat.ne_of_gt pos), if_neg (Int.not_lt.mpr most), if_neg (Int.not_lt.mpr least)]
  by_cases whole : 0 ≤ k
  · rw [if_pos whole]
    have shifted : 0 < m <<< Format.binary64.mantissaBits := by
      rw [Nat.shiftLeft_eq]
      positivity
    refine product_within s canonical _ _ _ _ shifted (tens _) ?_ ?_
    · have most := Nat.mul_le_mul (Nat.mul_le_mul_right (2 ^ 53) pos) (tens k.toNat)
      rw [Nat.shiftLeft_eq]
      change 2 ^ 52 ≤ m * 2 ^ 53 * 10 ^ k.toNat
      omega
    · have same : ((m <<< Format.binary64.mantissaBits : Nat) : ℚ) * 2 ^ (-(Format.binary64.mantissaBits : Int)) *
          ((10 ^ k.toNat : Nat) * 2 ^ (0 : Int)) = v := by
        rw [value, Nat.shiftLeft_eq, zpow_neg, zpow_natCast, zpow_zero, mul_one]
        push_cast
        rw [mul_assoc (m : ℚ), mul_inv_cancel₀ (by positivity), mul_one, ← zpow_natCast, Int.toNat_of_nonneg whole]
      rwa [same]
  · rw [if_neg whole]
    refine quotient_within s canonical _ _ _ _ pos (tens _) ?_
    have same : (m : ℚ) * 2 ^ (0 : Int) / ((10 ^ (-k).toNat : Nat) * 2 ^ (0 : Int)) = v := by
      rw [value, zpow_zero, mul_one, mul_one]
      push_cast
      rw [← zpow_natCast, Int.toNat_of_nonneg (by omega), zpow_neg, div_inv_eq_mul]
    rwa [same]

-- Both operands of the short way are exact.
theorem short_within (m k : Nat) (pos : 0 < m) (small : m < 2 ^ 53)
    (there : k < Float.exactlyRepresentablePowersOfTen.size) :
    (v = m * 10 ^ k → (m.toUInt64.toFloat * Float.exactlyRepresentablePowersOfTen[k]).toModel.unpack =
      .finite .positive s.mantissa s.exponent canonical.positive) ∧
    (v = m / 10 ^ k → (m.toUInt64.toFloat / Float.exactlyRepresentablePowersOfTen[k]).toModel.unpack =
      .finite .positive s.mantissa s.exponent canonical.positive) := by
  obtain ⟨full, _⟩ := whole_full m pos small
  have shifted : 0 < m <<< (52 - m.log2) := by
    omega
  have short : m.log2 < 53 := (Nat.log2_lt (Nat.ne_of_gt pos)).mpr small
  obtain ⟨n, f, pos', power, full', exact_part⟩ := power_parts k _ (table_exact ⟨k, there⟩)
  have power : Float.exactlyRepresentablePowersOfTen[k].toModel.unpack = .finite .positive n f pos' := power
  have word := unpack_word m pos small shifted
  have whole : ((m <<< (52 - m.log2) : Nat) : ℚ) * 2 ^ ((m.log2 : Int) - 52) = m := by
    rw [Nat.shiftLeft_eq]
    push_cast
    rw [← zpow_natCast, mul_assoc, ← two_power_add, show ((52 - m.log2 : Nat) : Int) + (m.log2 - 52) = 0 by omega,
      zpow_zero, mul_one]
  constructor
  · intro value
    change (Float.Model.pack (UnpackedFloat.mul Format.binary64 m.toUInt64.toFloat.toModel.unpack
      Float.exactlyRepresentablePowersOfTen[k].toModel.unpack)).unpack = _
    have product := product_within s canonical _ _ _ _ shifted pos'
      (Nat.le_trans full (Nat.le_mul_of_pos_right _ pos')) (by rwa [whole, exact_part, ← value])
    rw [word, power, product]
    exact pack_canonical _ _ _ _ canonical
  · intro value
    change (Float.Model.pack (UnpackedFloat.div Format.binary64 m.toUInt64.toFloat.toModel.unpack
      Float.exactlyRepresentablePowersOfTen[k].toModel.unpack)).unpack = _
    have quotient := quotient_within s canonical _ _ _ _ shifted pos' (by rwa [whole, exact_part, ← value])
    rw [word, power, quotient]
    exact pack_canonical _ _ _ _ canonical

/-- A decimal is read as the number that its value rounds to. -/
theorem decimal_within (m : Nat) (k : Int) (pos : 0 < m) (value : v = m * 10 ^ k) :
    (ofDecimal m k).toModel.unpack = .finite .positive s.mantissa s.exponent canonical.positive := by
  have slow (n : Int) (same : n = k) : (Float.ofModel (Float.Model.ofScientific m n)).toModel.unpack =
      .finite .positive s.mantissa s.exponent canonical.positive := by
    change (Float.Model.pack (UnpackedFloat.ofScientific Format.binary64 m n)).unpack = _
    rw [same, scientific_within s v canonical rounds m k pos value]
    exact pack_canonical _ _ _ _ canonical
  have short (n : Nat) := short_within s v canonical rounds m n pos
  generalize UnpackedFloat.finite .positive s.mantissa s.exponent canonical.positive = parts at slow short ⊢
  rw [ofDecimal]
  split
  · next negative =>
    rw [Float.ofScientific]
    split
    · next small =>
      refine (short _ small.1 (Nat.lt_succ_of_le small.2)).2 ?_
      rw [value, ← zpow_natCast, Int.toNat_of_nonneg (by omega), zpow_neg, div_inv_eq_mul]
    · exact slow _ (by rw [if_pos rfl, Int.negOfNat_eq, Int.ofNat_eq_natCast]; omega)
  · next whole =>
    rw [Float.ofScientific]
    split
    · next small =>
      refine (short _ small.1 (Nat.lt_succ_of_le small.2)).1 ?_
      rw [value, ← zpow_natCast, Int.toNat_of_nonneg (by omega)]
    · exact slow _ (by rw [if_neg Bool.false_ne_true]; exact Int.toNat_of_nonneg (by omega))

end

end Ecma.Number
