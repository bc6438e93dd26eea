import Ecma.Proofs.Number.Rounding

set_option autoImplicit false

/-!
The shortest digits of a number. On a grid of decimals the two neighbours of a number are the only candidates; the grid
of seventeen digits is fine enough for one of them to round back to the number, and the digits that are found, without
the zeros at their end, do so.
-/

namespace Ecma.Number

/-! Fractions. -/

theorem tenfold_value (numerator denominator : Nat) (k : Int) (pos : 0 < denominator) :
    0 < (tenfold numerator denominator k).2 ∧
      ((tenfold numerator denominator k).1 : ℚ) / (tenfold numerator denominator k).2 =
        numerator / denominator * 10 ^ k := by
  rw [tenfold]
  split
  · next whole =>
    refine ⟨pos, ?_⟩
    have power : ((Nat.pow 10 k.toNat : Nat) : ℚ) = 10 ^ k := by
      rw [Nat.pow_eq, Nat.cast_pow, ← zpow_natCast, Int.toNat_of_nonneg whole, Nat.cast_ofNat]
    dsimp only
    rw [Nat.cast_mul, power, mul_div_right_comm]
  · next fraction =>
    refine ⟨Nat.mul_pos pos (Nat.pow_pos (by decide)), ?_⟩
    have power : ((Nat.pow 10 (-k).toNat : Nat) : ℚ) = (10 ^ k)⁻¹ := by
      rw [Nat.pow_eq, Nat.cast_pow, ← zpow_natCast, Int.toNat_of_nonneg (by omega), Nat.cast_ofNat, zpow_neg]
    dsimp only
    rw [Nat.cast_mul, power, ← div_div, div_inv_eq_mul]

theorem fraction_value (m : Nat) (e : Int) :
    0 < (fraction m e).2 ∧ ((fraction m e).1 : ℚ) / (fraction m e).2 = m * 2 ^ e := by
  rw [fraction]
  split
  · next whole =>
    refine ⟨one_pos, ?_⟩
    dsimp only
    rw [Nat.shiftLeft_eq, Nat.cast_mul, Nat.cast_pow, ← zpow_natCast, Int.toNat_of_nonneg whole, Nat.cast_ofNat,
      Nat.cast_one, div_one]
  · next fraction =>
    dsimp only
    rw [Nat.one_shiftLeft]
    refine ⟨Nat.two_pow_pos _, ?_⟩
    rw [Nat.cast_pow, ← zpow_natCast, Int.toNat_of_nonneg (by omega), Nat.cast_ofNat, zpow_neg, div_inv_eq_mul]

/-- Quarters of the last place, counted in the unit of a decimal grid. -/
def onGrid (s : Scaled) (grid : Int) (quarters : Nat) : Nat × Nat :=
  tenfold (fraction quarters (s.exponent - 2)).1 (fraction quarters (s.exponent - 2)).2 (-grid)

section

variable (s : Scaled) (grid : Int) (quarters count : Nat)

theorem on_grid_value : 0 < (onGrid s grid quarters).2 ∧
    ((onGrid s grid quarters).1 : ℚ) / (onGrid s grid quarters).2 * 10 ^ grid = quarters * 2 ^ (s.exponent - 2) := by
  obtain ⟨pos, value⟩ := fraction_value quarters (s.exponent - 2)
  obtain ⟨pos', value'⟩ := tenfold_value (fraction quarters (s.exponent - 2)).1 _ (-grid) pos
  refine ⟨pos', ?_⟩
  rw [onGrid, value', value, zpow_neg, inv_mul_cancel_right₀ (ne_of_gt (ten_power_pos grid))]

theorem on_grid_less : (onGrid s grid quarters).1 < count * (onGrid s grid quarters).2 ↔
    quarters * 2 ^ (s.exponent - 2) < (count : ℚ) * 10 ^ grid := by
  obtain ⟨pos, value⟩ := on_grid_value s grid quarters
  have unit : (0 : ℚ) < (onGrid s grid quarters).2 := by
    exact_mod_cast pos
  rw [← value, mul_lt_mul_iff_left₀ (ten_power_pos grid), div_lt_iff₀ unit]
  exact_mod_cast Iff.rfl

theorem on_grid_more : count * (onGrid s grid quarters).2 < (onGrid s grid quarters).1 ↔
    (count : ℚ) * 10 ^ grid < quarters * 2 ^ (s.exponent - 2) := by
  obtain ⟨pos, value⟩ := on_grid_value s grid quarters
  have unit : (0 : ℚ) < (onGrid s grid quarters).2 := by
    exact_mod_cast pos
  rw [← value, mul_lt_mul_iff_left₀ (ten_power_pos grid), lt_div_iff₀ unit]
  exact_mod_cast Iff.rfl

theorem on_grid_equal : (onGrid s grid quarters).1 = count * (onGrid s grid quarters).2 ↔
    quarters * 2 ^ (s.exponent - 2) = (count : ℚ) * 10 ^ grid := by
  obtain ⟨pos, value⟩ := on_grid_value s grid quarters
  have unit : ((onGrid s grid quarters).2 : ℚ) ≠ 0 := by
    exact_mod_cast Nat.ne_of_gt pos
  rw [← value, mul_left_inj' (ne_of_gt (ten_power_pos grid)), div_eq_iff unit]
  exact_mod_cast Iff.rfl

end

/-! The neighbours of a number on a grid. -/

/-- The value of a number. -/
def magnitude (s : Scaled) : ℚ :=
  s.mantissa * 2 ^ s.exponent

/-- Whether a point of a grid lies above the lower end. -/
def lowTest (s : Scaled) (grid : Int) (count : Nat) : Bool :=
  let cut := onGrid s grid (4 * s.mantissa - (reach s).1)
  cut.1 < count * cut.2 || (s.mantissa % 2 == 0 && cut.1 == count * cut.2)

/-- Whether a point of a grid lies below the upper end. -/
def highTest (s : Scaled) (grid : Int) (count : Nat) : Bool :=
  let cut := onGrid s grid (4 * s.mantissa + (reach s).2)
  count * cut.2 < cut.1 || (s.mantissa % 2 == 0 && count * cut.2 == cut.1)

/-- The last point of a grid that is not above a number. -/
def floorOnGrid (s : Scaled) (grid : Int) : Nat :=
  (onGrid s grid (4 * s.mantissa)).1 / (onGrid s grid (4 * s.mantissa)).2

theorem nearest_tests (s : Scaled) (grid : Int) : nearestOnGrid? s grid =
    let floor := floorOnGrid s grid
    let (n, d) := onGrid s grid (4 * s.mantissa)
    if lowTest s grid floor && highTest s grid (floor + 1) then
      some (if d ≤ 2 * (n - floor * d) then floor + 1 else floor)
    else if lowTest s grid floor then some floor
    else if highTest s grid (floor + 1) then some (floor + 1)
    else none := by
  rfl

section

variable (s : Scaled) (positive : 0 < s.mantissa)

theorem value_between : lowEnd s < magnitude s ∧ magnitude s < highEnd s := by
  obtain ⟨low, high⟩ := ends_counted s
  have unit := two_power_pos s.exponent
  rw [low, high, magnitude]
  have below : (0 : ℚ) < (reach s).1 := by
    rcases reach_cases s with ⟨reaches, _⟩ | reaches <;> rw [reaches] <;> norm_num
  exact ⟨mul_lt_mul_of_pos_right (by linarith) unit, mul_lt_mul_of_pos_right (by linarith) unit⟩

theorem above_grown (v w : ℚ) (above : Above s v) (more : v ≤ w) : Above s w := by
  rcases above with less | ⟨even, same⟩
  · exact .inl (lt_of_lt_of_le less more)
  · exact (lt_or_eq_of_le more).imp (lt_of_le_of_lt (le_of_eq same)) fun again => ⟨even, same.trans again⟩

theorem below_shrunk (v w : ℚ) (below : Below s w) (less : v ≤ w) : Below s v := by
  rcases below with more | ⟨even, same⟩
  · exact .inl (lt_of_le_of_lt less more)
  · exact (lt_or_eq_of_le less).imp (fun other => lt_of_lt_of_le other (le_of_eq same)) fun again =>
      ⟨even, again.trans same⟩

variable (grid : Int)

theorem high_test_iff (count : Nat) : highTest s grid count = true ↔ Below s (count * 10 ^ grid) := by
  have high : ((4 * s.mantissa + (reach s).2 : Nat) : ℚ) * 2 ^ (s.exponent - 2) = highEnd s := by
    rw [highEnd]
    push_cast
    rfl
  rw [highTest, Below, ← high, Bool.or_eq_true, decide_eq_true_iff, Bool.and_eq_true, beq_iff_eq, beq_iff_eq, on_grid_more,
    @eq_comm _ (count * _), on_grid_equal, @eq_comm _ (_ * _) ((count : ℚ) * _)]

include positive

theorem low_test_iff (count : Nat) : lowTest s grid count = true ↔ Above s (count * 10 ^ grid) := by
  have least : (reach s).1 ≤ 4 * s.mantissa := by
    rcases reach_cases s with ⟨reaches, _⟩ | reaches <;> rw [reaches] <;> dsimp only <;> omega
  have low : ((4 * s.mantissa - (reach s).1 : Nat) : ℚ) * 2 ^ (s.exponent - 2) = lowEnd s := by
    rw [lowEnd, Nat.cast_sub least]
    push_cast
    rfl
  rw [lowTest, Above, ← low, Bool.or_eq_true, decide_eq_true_iff, Bool.and_eq_true, beq_iff_eq, beq_iff_eq,
    on_grid_less, on_grid_equal]

omit positive in
theorem floor_bounds : (floorOnGrid s grid : ℚ) * 10 ^ grid ≤ magnitude s ∧
    magnitude s < ((floorOnGrid s grid + 1 : Nat) : ℚ) * 10 ^ grid := by
  have value : ((4 * s.mantissa : Nat) : ℚ) * 2 ^ (s.exponent - 2) = magnitude s := by
    rw [magnitude, quarter_power]
    push_cast
    ring
  have pos := (on_grid_value s grid (4 * s.mantissa)).1
  rw [← value, ← not_lt, ← on_grid_less, ← on_grid_less, floorOnGrid]
  constructor
  · exact Nat.not_lt.mpr (Nat.div_mul_le_self _ _)
  · exact (Nat.div_lt_iff_lt_mul pos).mp (Nat.lt_succ_self _)

/-- A point that is found on a grid is one of the two neighbours and rounds to the number. -/
theorem nearest_found (count : Nat) (found : nearestOnGrid? s grid = some count) :
    Rounds s (count * 10 ^ grid) ∧ count ≤ floorOnGrid s grid + 1 := by
  obtain ⟨least, most⟩ := floor_bounds s grid
  obtain ⟨low, high⟩ := value_between s
  have below : Below s (floorOnGrid s grid * 10 ^ grid) := .inl (lt_of_le_of_lt least high)
  have above : Above s ((floorOnGrid s grid + 1 : Nat) * 10 ^ grid) := .inl (lt_trans low most)
  have floor (test : lowTest s grid (floorOnGrid s grid) = true) : Rounds s (floorOnGrid s grid * 10 ^ grid) :=
    ⟨(low_test_iff s positive grid _).mp test, below⟩
  have next (test : highTest s grid (floorOnGrid s grid + 1) = true) :
      Rounds s ((floorOnGrid s grid + 1 : Nat) * 10 ^ grid) :=
    ⟨above, (high_test_iff s grid _).mp test⟩
  rw [nearest_tests] at found
  dsimp only at found
  split at found
  · next both =>
    rw [Bool.and_eq_true] at both
    rw [Option.some.injEq] at found
    rw [← found]
    split
    · exact ⟨next both.2, le_refl _⟩
    · exact ⟨floor both.1, Nat.le_succ _⟩
  · split at found
    · next test =>
      obtain rfl := Option.some.inj found
      exact ⟨floor test, Nat.le_succ _⟩
    · split at found
      · next test =>
        obtain rfl := Option.some.inj found
        exact ⟨next test, le_refl _⟩
      · cases found

/-- Where nothing is found, both neighbours lie outside the ends. -/
theorem nearest_none (none : nearestOnGrid? s grid = none) :
    ¬ Above s (floorOnGrid s grid * 10 ^ grid) ∧ ¬ Below s ((floorOnGrid s grid + 1 : Nat) * 10 ^ grid) := by
  rw [nearest_tests] at none
  dsimp only at none
  split at none
  · cases none
  · split at none
    · cases none
    · next low =>
      split at none
      · cases none
      · next high => exact ⟨(low_test_iff s positive grid _).not.mp low, (high_test_iff s grid _).not.mp high⟩

/-- Where nothing is found, no point of the grid rounds to the number. -/
theorem grid_none (none : nearestOnGrid? s grid = none) (count : Nat) : ¬ Rounds s (count * 10 ^ grid) := by
  obtain ⟨low, high⟩ := nearest_none s positive grid none
  have unit := le_of_lt (ten_power_pos grid)
  rintro ⟨above, below⟩
  rcases Nat.lt_or_ge (floorOnGrid s grid) count with more | less
  · have next : ((floorOnGrid s grid + 1 : Nat) : ℚ) ≤ count := by
      exact_mod_cast more
    exact high (below_shrunk s _ _ below (mul_le_mul_of_nonneg_right next unit))
  · have floor : (count : ℚ) ≤ floorOnGrid s grid := by
      exact_mod_cast less
    exact low (above_grown s _ _ above (mul_le_mul_of_nonneg_right floor unit))

end

/-! The exponent of the leading digit. -/

theorem guess_positive : ∀ b < 1024, 10 ^ (b * 30103 / 100000) ≤ 2 ^ b ∧ 2 ^ (b + 1) ≤ 10 ^ (b * 30103 / 100000 + 2) := by
  decide +kernel

theorem guess_negative : ∀ b < 1075, 2 ^ b ≤ 10 ^ ((b * 30103 + 99999) / 100000) ∧
    10 ^ ((b * 30103 + 99999) / 100000) * 2 ≤ 100 * 2 ^ b := by
  decide +kernel

/-- The guess is not too large, and too small by one at most. -/
theorem guess_bounds (b : Int) (least : -1074 ≤ b) (most : b ≤ 1023) :
    (10 : ℚ) ^ (b * 30103 / 100000) ≤ 2 ^ b ∧ (2 : ℚ) ^ (b + 1) ≤ 10 ^ (b * 30103 / 100000 + 2) := by
  have ten : (10 : ℚ) ≠ 0 := by
    norm_num
  rcases Int.lt_or_le b 0 with negative | positive
  · obtain ⟨c, rfl⟩ : ∃ c : Nat, b = -(c : Int) := ⟨(-b).toNat, by omega⟩
    have guess : -(c : Int) * 30103 / 100000 = -(((c * 30103 + 99999) / 100000 : Nat) : Int) := by
      omega
    obtain ⟨low, high⟩ := guess_negative c (by omega)
    rw [guess]
    generalize (c * 30103 + 99999) / 100000 = g at low high
    have low' : (2 : ℚ) ^ c ≤ 10 ^ g := by
      exact_mod_cast low
    have high' : (10 : ℚ) ^ g * 2 ≤ 100 * 2 ^ c := by
      exact_mod_cast high
    have unit : (0 : ℚ) < 2 ^ c := by
      positivity
    have unit' : (0 : ℚ) < 10 ^ g := by
      positivity
    rw [zpow_add₀ ten, two_power_add, zpow_neg, zpow_neg, zpow_natCast, zpow_natCast]
    refine ⟨inv_anti₀ unit low', ?_⟩
    rw [← div_eq_inv_mul, ← div_eq_inv_mul, div_le_div_iff₀ unit unit']
    norm_num
    linarith
  · obtain ⟨c, rfl⟩ := Int.eq_ofNat_of_zero_le positive
    obtain ⟨low, high⟩ := guess_positive c (by omega)
    have guess : (c : Int) * 30103 / 100000 = ((c * 30103 / 100000 : Nat) : Int) := by
      omega
    rw [guess]
    exact_mod_cast And.intro low high

section

variable (s : Scaled) (canonical : Canonical s.mantissa s.exponent)
include canonical

theorem leading_bounds : (10 : ℚ) ^ leadingExponent s ≤ magnitude s ∧ magnitude s < 10 ^ (leadingExponent s + 1) := by
  have nonzero : s.mantissa ≠ 0 := Nat.ne_of_gt canonical.positive
  have log : s.mantissa.log2 < 53 := (Nat.log2_lt nonzero).mpr canonical.bounded
  have least := canonical.least
  have most := canonical.most
  obtain ⟨low, high⟩ := guess_bounds (s.mantissa.log2 + s.exponent) (by omega) (by omega)
  change (10 : ℚ) ^ exponentGuess s ≤ _ at low
  change _ ≤ (10 : ℚ) ^ (exponentGuess s + 2) at high
  have below : (2 : ℚ) ^ ((s.mantissa.log2 : Int) + s.exponent) ≤ magnitude s := by
    have bits : (2 : ℚ) ^ s.mantissa.log2 ≤ s.mantissa := by
      exact_mod_cast Nat.log2_self_le nonzero
    rw [two_power_add, zpow_natCast, magnitude]
    exact mul_le_mul_of_nonneg_right bits (le_of_lt (two_power_pos _))
  have above : magnitude s < (2 : ℚ) ^ ((s.mantissa.log2 : Int) + s.exponent + 1) := by
    have bits : (s.mantissa : ℚ) < 2 ^ ((s.mantissa.log2 : Int) + 1) := by
      exact_mod_cast Nat.lt_log2_self
    rw [add_right_comm, two_power_add, magnitude]
    exact mul_lt_mul_of_pos_right bits (two_power_pos _)
  have test : (tenfold (fraction s.mantissa s.exponent).1 (fraction s.mantissa s.exponent).2 (-(exponentGuess s + 1))).2 ≤
      (tenfold (fraction s.mantissa s.exponent).1 (fraction s.mantissa s.exponent).2 (-(exponentGuess s + 1))).1 ↔
        (10 : ℚ) ^ (exponentGuess s + 1) ≤ magnitude s := by
    obtain ⟨pos, value⟩ := fraction_value s.mantissa s.exponent
    obtain ⟨pos', value'⟩ := tenfold_value (fraction s.mantissa s.exponent).1 _ (-(exponentGuess s + 1)) pos
    rw [value, zpow_neg, ← div_eq_mul_inv, ← magnitude] at value'
    have unit : (0 : ℚ) < (tenfold (fraction s.mantissa s.exponent).1 (fraction s.mantissa s.exponent).2
        (-(exponentGuess s + 1))).2 := by
      exact_mod_cast pos'
    rw [← one_le_div (ten_power_pos _), ← value', one_le_div unit]
    exact_mod_cast Iff.rfl
  rw [leadingExponent]
  dsimp only
  split
  · next more =>
    rw [show exponentGuess s + 2 = exponentGuess s + 1 + 1 by omega] at high
    exact ⟨test.mp more, lt_of_lt_of_le above high⟩
  · next less => exact ⟨le_trans low below, not_le.mp (test.not.mp less)⟩

/-! The digits that are found. -/

/-- Seventeen digits are enough: a finer grid has a point between the ends. -/
theorem fine_enough (grid : Int) (fine : (10 : ℚ) ^ (grid + 16) ≤ magnitude s) : nearestOnGrid? s grid ≠ none := by
  intro none
  obtain ⟨low, high⟩ := nearest_none s canonical.positive grid none
  have low := not_lt.mp fun less => low (.inl less)
  have high := not_lt.mp fun less => high (.inl less)
  obtain ⟨low', high'⟩ := ends_counted s
  have unit := two_power_pos s.exponent
  have bounded : (s.mantissa : ℚ) + 1 ≤ 2 ^ 53 := by
    exact_mod_cast canonical.bounded
  have wide : 10 ^ grid * 10 ^ 16 ≤ s.mantissa * (2 : ℚ) ^ s.exponent := by
    rw [← magnitude]
    rwa [zpow_add₀ (by norm_num)] at fine
  have narrow : (s.mantissa + 1 / 2) * 2 ^ s.exponent - (s.mantissa - ((reach s).1 : ℚ) / 4) * 2 ^ s.exponent ≤
      10 ^ grid := by
    rw [← low', ← high']
    push_cast at high
    linarith
  have gap : (1 / 2 + ((reach s).1 : ℚ) / 4) * 10 ^ 16 * 2 ^ s.exponent ≤ s.mantissa * 2 ^ s.exponent := by
    linarith
  have gap := le_of_mul_le_mul_right gap unit
  rcases reach_cases s with ⟨reaches, power⟩ | reaches
  · rw [reaches, power] at gap
    norm_num at gap
  · rw [reaches] at gap
    push_cast at gap
    linarith

/-- The grid of the fewest digits that has a hit, and the hit. -/
structure FirstHit (leading : Int) (count last : Nat) (hit : Decimal) : Prop where
  least : count ≤ last
  most : last ≤ 17
  exponent : hit.exponent = leading - last + 1
  found : nearestOnGrid? s (leading - last + 1) = some hit.digits
  before : ∀ c, count ≤ c → c < last → nearestOnGrid? s (leading - c + 1) = none

theorem first_hit_found (leading : Int) (small : (10 : ℚ) ^ leading ≤ magnitude s) (fuel count : Nat)
    (most : count ≤ 17) (enough : 17 < fuel + count) :
    ∃ last, FirstHit s leading count last (firstHit s leading fuel count) := by
  induction fuel generalizing count with
  | zero => omega
  | succ fuel hyp =>
    rw [firstHit]
    split
    · next digits found => exact ⟨count, le_refl count, most, rfl, found, fun c least less => by omega⟩
    · next none =>
      have unfinished : count ≠ 17 := by
        rintro rfl
        refine fine_enough s canonical _ ?_ none
        rwa [show leading - (17 : Nat) + 1 + 16 = leading by omega]
      obtain ⟨last, least, most, exponent, found, before⟩ := hyp (count + 1) (by omega) (by omega)
      refine ⟨last, by omega, most, exponent, found, fun c from' less => ?_⟩
      rcases Nat.eq_or_lt_of_le from' with rfl | later
      · exact none
      · exact before c later less

end

/-- The value of a decimal. -/
def Decimal.value (d : Decimal) : ℚ :=
  d.digits * 10 ^ d.exponent

theorem zeros_stripped (fuel : Nat) (d : Decimal) (positive : 0 < d.digits) (small : d.digits < 10 ^ fuel) :
    (stripZeros fuel d).digits % 10 ≠ 0 ∧ (stripZeros fuel d).digits ≤ d.digits ∧ (stripZeros fuel d).value = d.value := by
  induction fuel generalizing d with
  | zero => omega
  | succ fuel hyp =>
    obtain ⟨digits, exponent⟩ := d
    dsimp only at positive small
    rw [stripZeros]
    split
    · next last =>
      have nonzero : 0 < digits / 10 := by
        omega
      have shorter : digits / 10 < 10 ^ fuel := by
        omega
      obtain ⟨ends, less, kept⟩ := hyp ⟨digits / 10, exponent + 1⟩ nonzero shorter
      refine ⟨ends, le_trans less (Nat.div_le_self digits 10), kept.trans ?_⟩
      have whole : (digits : ℚ) = (digits / 10 : Nat) * 10 := by
        exact_mod_cast (Nat.div_mul_cancel (Nat.dvd_of_mod_eq_zero last.2)).symm
      rw [Decimal.value, Decimal.value, zpow_add₀ (by norm_num), zpow_one, whole]
      ring
    · next last => exact ⟨fun zero => last ⟨Nat.ne_of_gt positive, zero⟩, le_refl digits, rfl⟩

section

variable (s : Scaled) (canonical : Canonical s.mantissa s.exponent)
include canonical

/-- What is known of the shortest decimal: it rounds to the number, its digits end in no zero, and there are no more of
them than the first grid with a hit has. -/
theorem shortest_found : ∃ last, FirstHit s (leadingExponent s) 1 last (firstHit s (leadingExponent s) 17 1) ∧
    Rounds s (shortest s).value ∧ (shortest s).digits % 10 ≠ 0 ∧ (shortest s).digits ≤ 10 ^ last := by
  obtain ⟨low, high⟩ := leading_bounds s canonical
  obtain ⟨last, first⟩ := first_hit_found s canonical (leadingExponent s) low 17 1 (by decide) (by decide)
  refine ⟨last, first, ?_⟩
  obtain ⟨least, most, exponent, found, _⟩ := first
  rw [shortest]
  generalize firstHit s (leadingExponent s) 17 1 = hit at exponent found
  obtain ⟨rounds, near⟩ := nearest_found s canonical.positive _ _ found
  have positive : 0 < hit.digits := by
    rcases Nat.eq_zero_or_pos hit.digits with none | some'
    · have least := (rounds_range s _ canonical rounds).1
      have above := two_power_pos (-1075)
      rw [none, Nat.cast_zero, zero_mul] at least
      linarith
    · exact some'
  have small : hit.digits ≤ 10 ^ last := by
    have least := (floor_bounds s (leadingExponent s - last + 1)).1
    have scale : (10 : ℚ) ^ (leadingExponent s + 1) = 10 ^ last * 10 ^ (leadingExponent s - last + 1) := by
      rw [← zpow_natCast, ← zpow_add₀ (by norm_num)]
      congr 1
      omega
    rw [scale] at high
    have less := lt_of_mul_lt_mul_right (lt_of_le_of_lt least high) (le_of_lt (ten_power_pos _))
    have less' : floorOnGrid s (leadingExponent s - last + 1) < 10 ^ last := by
      exact_mod_cast less
    omega
  have few : 10 ^ last ≤ 10 ^ 17 := Nat.pow_le_pow_right (by decide) most
  obtain ⟨ends, less, kept⟩ := zeros_stripped 20 hit positive (by omega)
  refine ⟨?_, ends, le_trans less small⟩
  rwa [kept, Decimal.value, exponent]

/-- No decimal of fewer digits rounds to the number. -/
theorem shortest_fewest (d : Decimal) (rounds : Rounds s d.value) :
    (Nat.toDigits 10 (shortest s).digits).length ≤ (Nat.toDigits 10 d.digits).length := by
  obtain ⟨low, _⟩ := leading_bounds s canonical
  obtain ⟨last, first, _, ends, few⟩ := shortest_found s canonical
  generalize same : (Nat.toDigits 10 d.digits).length = k
  have some' : 0 < k := same ▸ List.length_pos_iff.mpr Nat.toDigits_ne_nil
  have short : d.digits < 10 ^ k := (Nat.length_toDigits_le_iff (by decide) some').mp (le_of_eq same)
  have enough : last ≤ k := by
    by_contra fewer
    have none := grid_none s canonical.positive _ (first.before k some' (by omega))
    -- A decimal of k digits lies on the grid of k digits, or else a power of ten is between it and the number.
    rcases le_or_gt (leadingExponent s - k + 1) d.exponent with coarse | fine
    · refine none (d.digits * 10 ^ (d.exponent - (leadingExponent s - k + 1)).toNat) ?_
      have value : ((d.digits * 10 ^ (d.exponent - (leadingExponent s - k + 1)).toNat : Nat) : ℚ) *
          10 ^ (leadingExponent s - k + 1) = d.value := by
        push_cast
        rw [← zpow_natCast, Int.toNat_of_nonneg (by omega), mul_assoc, ← zpow_add₀ (by norm_num), sub_add_cancel]
        rfl
      rwa [value]
    · refine none (10 ^ (k - 1)) ?_
      have power : ((10 ^ (k - 1) : Nat) : ℚ) * 10 ^ (leadingExponent s - k + 1) = 10 ^ leadingExponent s := by
        rw [Nat.cast_pow, ← zpow_natCast, Nat.cast_ofNat, ← zpow_add₀ (by norm_num)]
        congr 1
        omega
      have below : d.value ≤ 10 ^ leadingExponent s := by
        have digits : (d.digits : ℚ) ≤ 10 ^ k := by
          exact_mod_cast le_of_lt short
        calc d.value ≤ 10 ^ k * 10 ^ d.exponent := mul_le_mul_of_nonneg_right digits (le_of_lt (ten_power_pos _))
          _ = 10 ^ (k + d.exponent) := by rw [← zpow_natCast, ← zpow_add₀ (by norm_num)]
          _ ≤ 10 ^ leadingExponent s := zpow_le_zpow_right₀ (by norm_num) (by omega)
      rw [power]
      exact ⟨above_grown s _ _ rounds.above below, .inl (lt_of_le_of_lt low (value_between s).2)⟩
  have strict : (shortest s).digits < 10 ^ last := by
    refine Nat.lt_of_le_of_ne few fun equal => ends ?_
    rw [equal]
    exact Nat.mod_eq_zero_of_dvd (dvd_pow_self 10 (by have least := first.least; omega))
  exact le_trans ((Nat.length_toDigits_le_iff (by decide) first.least).mpr strict) enough

end

end Ecma.Number
