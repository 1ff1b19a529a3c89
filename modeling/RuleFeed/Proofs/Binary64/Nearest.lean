import Mathlib.Tactic.FieldSimp
import Mathlib.Tactic.Linarith
import RuleFeed.Proofs.Binary64.Finite
import RuleFeed.Proofs.Binary64.Order

/-!
Rounding to the nearest value, for every quotient that does not round to infinity. Being nearest is
said of all finite values, and a tie is settled by the last bit of the fraction alone. This leaves
one value to each number, and a larger number never has a smaller one.

The quotient is rounded to a multiple of one step. A value that is no multiple of that step lies
below the first multiple with a full significand, which is nearer, so the nearest multiple is the
nearest value. Whole numbers of 53 bits and zeros behind them are multiples already.
-/
namespace RuleFeed.Binary64

/-- No finite value is nearer to the number, and where another one is as near, the fraction of this
one is even. -/
structure IsNearest (q : ℚ) (x : Binary64) : Prop where
  finite : x.isFinite = true
  nearest : ∀ y : Binary64, y.isFinite = true → |x.toRat - q| ≤ |y.toRat - q|
  even : ∀ y : Binary64, y.isFinite = true → y.toRat ≠ x.toRat →
    |y.toRat - q| = |x.toRat - q| → Even x.fraction

namespace IsNearest

variable {p q : ℚ} {x y : Binary64}

theorem add_le_two_mul (hx : IsNearest q x) (hy : y.isFinite = true) (lt : y.toRat < x.toRat) :
    x.toRat + y.toRat ≤ 2 * q := by
  refine le_of_not_gt fun below => absurd (hx.nearest y hy) (not_le.mpr ?_)
  calc |y.toRat - q| < x.toRat - q := abs_lt.mpr ⟨by linarith, by linarith⟩
    _ ≤ |x.toRat - q| := le_abs_self _

theorem two_mul_le_add (hx : IsNearest q x) (hy : y.isFinite = true) (lt : x.toRat < y.toRat) :
    2 * q ≤ x.toRat + y.toRat := by
  refine le_of_not_gt fun above => absurd (hx.nearest y hy) (not_le.mpr ?_)
  calc |y.toRat - q| < -(x.toRat - q) := abs_lt.mpr ⟨by linarith, by linarith⟩
    _ ≤ |x.toRat - q| := neg_le_abs _

theorem toRat_not_lt (hx : IsNearest q x) (hy : IsNearest q y) : ¬ x.toRat < y.toRat := by
  intro lt
  have low := hy.add_le_two_mul hx.finite lt
  have high := hx.two_mul_le_add hy.finite lt
  have tie : |x.toRat - q| = |y.toRat - q| := by
    rw [← abs_neg]
    congr 1
    linarith
  obtain ⟨z, finite, above, below⟩ := exists_between hx.finite hy.finite
    (hx.even y hy.finite lt.ne' tie.symm) (hy.even x hx.finite lt.ne tie) lt
  -- The number is in the middle, and what lies between the two values is nearer to it.
  have near := hx.two_mul_le_add finite above
  linarith

theorem unique (hx : IsNearest q x) (hy : IsNearest q y) : x.toRat = y.toRat :=
  le_antisymm (not_lt.mp (hy.toRat_not_lt hx)) (not_lt.mp (hx.toRat_not_lt hy))

theorem mono (hx : IsNearest p x) (hy : IsNearest q y) (le : p ≤ q) : x.toRat ≤ y.toRat := by
  refine le_of_not_gt fun lt => ?_
  have low := hx.add_le_two_mul hy.finite lt
  have high := hy.two_mul_le_add hx.finite lt
  obtain rfl : p = q := by linarith
  exact lt.ne' (hx.unique hy)

end IsNearest

/-- How far a multiple of the denominator is from the numerator. -/
def gap (num den : ℕ) (k : ℤ) : ℤ := |k * den - num|

theorem nearestEven_cases (num den : ℕ) :
    (2 * (num % den) < den ∧ nearestEven num den = num / den) ∨
    (den < 2 * (num % den) ∧ nearestEven num den = num / den + 1) ∨
    (2 * (num % den) = den ∧ Even (nearestEven num den) ∧
      (nearestEven num den = num / den ∨ nearestEven num den = num / den + 1)) := by
  unfold nearestEven
  split
  case h_1 below => exact .inl ⟨Nat.compare_eq_lt.mp below, rfl⟩
  case h_2 above => exact .inr (.inl ⟨Nat.compare_eq_gt.mp above, rfl⟩)
  case h_3 tie =>
    refine .inr (.inr ⟨Nat.compare_eq_eq.mp tie, ?_⟩)
    split
    case isTrue even => exact ⟨Nat.even_iff.mpr even, .inl rfl⟩
    case isFalse odd => exact ⟨Nat.even_iff.mpr (by omega), .inr rfl⟩

theorem le_nearestEven (num den : ℕ) : num / den ≤ nearestEven num den := by
  rcases nearestEven_cases num den with ⟨-, value⟩ | ⟨-, value⟩ | ⟨-, -, value | value⟩
  all_goals omega

section Multiple

variable {num den : ℕ}

theorem gap_lt (positive : 0 < den) {j k : ℤ} (less : j < k) (le : k * den ≤ num) :
    gap num den k < gap num den j := by
  have below : j * den < k * den := mul_lt_mul_of_pos_right less (by exact_mod_cast positive)
  rw [gap, gap, abs_of_nonpos (by linarith), abs_of_nonpos (by linarith)]
  linarith

theorem gap_div (num den : ℕ) : gap num den (num / den : ℕ) = (num % den : ℕ) := by
  have split : (num / den * den + num % den : ℤ) = num := Int.ediv_mul_add_emod ..
  have below : ((num / den : ℕ) * den - num : ℤ) = -(num % den : ℕ) := by
    push_cast
    linarith
  rw [gap, below, abs_neg, Nat.abs_cast]

theorem gap_div_add_one (num : ℕ) (positive : 0 < den) :
    gap num den (num / den + 1 : ℕ) = den - (num % den : ℕ) := by
  have split : (num / den * den + num % den : ℤ) = num := Int.ediv_mul_add_emod ..
  have bound := Nat.mod_lt num positive
  have above : ((num / den + 1 : ℕ) * den - num : ℤ) = den - (num % den : ℕ) := by
    push_cast
    linarith
  rw [gap, above, abs_of_nonneg (by omega)]

/-- The error is half a step at most, and half a step only if the multiple is even. -/
theorem gap_nearestEven (num : ℕ) (positive : 0 < den) :
    2 * gap num den (nearestEven num den) ≤ den ∧
      (2 * gap num den (nearestEven num den) = den → Even (nearestEven num den)) := by
  have floor := gap_div num den
  have ceil := gap_div_add_one num positive
  rcases nearestEven_cases num den with ⟨below, value⟩ | ⟨above, value⟩ | ⟨tie, even, value | value⟩
  · rw [value, floor]
    exact ⟨by omega, by omega⟩
  · rw [value, ceil]
    exact ⟨by omega, by omega⟩
  · rw [value] at even ⊢
    rw [floor]
    exact ⟨by omega, fun _ => even⟩
  · rw [value] at even ⊢
    rw [ceil]
    exact ⟨by omega, fun _ => even⟩

theorem nearestEven_nearest (num : ℕ) (positive : 0 < den) (k : ℕ) :
    gap num den (nearestEven num den) ≤ gap num den k ∧
      (k ≠ nearestEven num den → gap num den k = gap num den (nearestEven num den) →
        Even (nearestEven num den)) := by
  obtain ⟨near, even⟩ := gap_nearestEven num positive
  by_cases same : k = nearestEven num den
  · rw [same]
    exact ⟨le_rfl, fun other => absurd rfl other⟩
  · have apart : (den : ℤ) ≤ |(k * den - nearestEven num den * den : ℤ)| := by
      have step : (1 : ℤ) ≤ |(k : ℤ) - nearestEven num den| :=
        Int.one_le_abs (sub_ne_zero.mpr (by exact_mod_cast same))
      rw [← sub_mul, abs_mul, Nat.abs_cast]
      exact le_mul_of_one_le_left (Int.natCast_nonneg den) step
    have triangle := abs_sub_le (k * den : ℤ) num (nearestEven num den * den)
    rw [abs_sub_comm (num : ℤ)] at triangle
    unfold gap at *
    exact ⟨by omega, fun _ tie => even (by omega)⟩

end Multiple

theorem multiple_or_units_lt (x : Binary64) (shift : ℕ) :
    (∃ k, x.units = k * 2 ^ shift) ∨ 0 < shift ∧ x.units < hiddenBit * 2 ^ shift := by
  rcases Nat.lt_or_ge x.places shift with fine | coarse
  · exact .inr ⟨Nat.zero_lt_of_lt fine, units_lt fine⟩
  · refine .inl ⟨x.significand * 2 ^ (x.places - shift), ?_⟩
    rw [units_eq, Nat.mul_assoc, ← Nat.pow_add, Nat.sub_add_cancel coarse]

/-- A significand stands for as many steps, also where it is 2^53 and carries into the exponent. -/
theorem units_of_magnitude {x : Binary64} {shift steps : ℕ}
    (magnitude : x.magnitude = shift * hiddenBit + steps) (high : steps ≤ 2 * hiddenBit)
    (low : shift = 0 ∨ hiddenBit ≤ steps) : x.units = steps * 2 ^ shift := by
  rw [units_eq, significand, places, magnitude]
  rcases Nat.lt_or_ge steps hiddenBit with small | large
  · obtain rfl := low.resolve_right (Nat.not_le.mpr small)
    rw [Nat.zero_mul, Nat.zero_add, if_pos small, Nat.div_eq_of_lt small]
  · have hidden : ¬ shift * hiddenBit + steps < hiddenBit := by omega
    rw [if_neg hidden]
    rcases Nat.lt_or_eq_of_le high with whole | rfl
    · have exponent : (shift * hiddenBit + steps) / hiddenBit = shift + 1 := by
        simp only [hiddenBit] at *
        omega
      have rest : hiddenBit + (shift * hiddenBit + steps) % hiddenBit = steps := by
        simp only [hiddenBit] at *
        omega
      rw [exponent, rest, Nat.add_sub_cancel]
    · have exponent : (shift * hiddenBit + 2 * hiddenBit) / hiddenBit = shift + 1 + 1 := by
        simp only [hiddenBit]
        omega
      have rest : (shift * hiddenBit + 2 * hiddenBit) % hiddenBit = 0 := by
        rw [← Nat.add_mul, Nat.mul_mod_left]
      rw [exponent, rest, Nat.add_sub_cancel, Nat.add_zero, Nat.pow_succ]
      ring

section Quotient

variable {num den : ℕ} {negative : Bool}

def gridShift (num den : ℕ) : ℕ := spacing ((num <<< unitPlaces) / den)

def gridSteps (num den : ℕ) : ℕ := nearestEven (num <<< unitPlaces) (den <<< gridShift num den)

theorem div_grid (num den shift : ℕ) : num / (den <<< shift) = num / den / 2 ^ shift := by
  rw [Nat.shiftLeft_eq, Nat.div_div_eq_div_mul]

theorem gap_grid (num den shift k : ℕ) :
    gap num den (k * 2 ^ shift : ℕ) = gap num (den <<< shift) k := by
  rw [gap, gap, Nat.shiftLeft_eq, Nat.mul_comm den]
  push_cast
  rw [mul_assoc]

theorem full_of_gridShift (positive : 0 < gridShift num den) :
    hiddenBit * 2 ^ gridShift num den ≤ (num <<< unitPlaces) / den := by
  have bits : ((num <<< unitPlaces) / den).log2 = 52 + gridShift num den := by
    simp only [gridShift, spacing] at positive ⊢
    omega
  have nonzero : (num <<< unitPlaces) / den ≠ 0 := by
    intro zero
    rw [zero, Nat.log2_zero] at bits
    omega
  have bound := Nat.log2_self_le nonzero
  rw [bits, Nat.pow_add] at bound
  exact bound

theorem gridSteps_le (num den : ℕ) : gridSteps num den ≤ 2 * hiddenBit := by
  have rounded := nearestEven_le (num <<< unitPlaces) (den <<< gridShift num den)
  have floor := shifted_lt ((num <<< unitPlaces) / den)
  rw [div_grid] at rounded
  rw [Nat.one_shiftLeft] at floor
  exact rounded.trans floor

theorem le_gridSteps (num den : ℕ) : gridShift num den = 0 ∨ hiddenBit ≤ gridSteps num den := by
  rcases Nat.eq_zero_or_pos (gridShift num den) with none | positive
  · exact .inl none
  · refine .inr (le_trans ?_ (le_nearestEven _ _))
    rw [div_grid]
    exact (Nat.le_div_iff_mul_le (Nat.two_pow_pos _)).mpr (full_of_gridShift positive)

theorem magnitude_ofQuotient (finite : (ofQuotient negative num den).isFinite = true) :
    (ofQuotient negative num den).magnitude =
      gridShift num den * hiddenBit + gridSteps num den := by
  have bound : nearestMagnitude num den < infinite := of_decide_eq_true finite
  exact min_eq_left (le_of_lt ((min_lt_iff.mp bound).resolve_right (lt_irrefl _)))

theorem units_ofQuotient (finite : (ofQuotient negative num den).isFinite = true) :
    (ofQuotient negative num den).units = gridSteps num den * 2 ^ gridShift num den :=
  units_of_magnitude (magnitude_ofQuotient finite) (gridSteps_le num den) (le_gridSteps num den)

theorem even_fraction_ofQuotient (finite : (ofQuotient negative num den).isFinite = true)
    (even : Even (gridSteps num den)) : Even (ofQuotient negative num den).fraction := by
  rw [Nat.even_iff] at even
  rw [fraction, magnitude_ofQuotient finite, Nat.even_iff]
  simp only [hiddenBit]
  omega

/-- No value without its sign is nearer than the one that a quotient is rounded to, and where
another one is as near, the number of steps is even. -/
theorem units_nearest (positive : 0 < den)
    (finite : (ofQuotient negative num den).isFinite = true) (y : Binary64) :
    gap (num <<< unitPlaces) den (ofQuotient negative num den).units ≤
        gap (num <<< unitPlaces) den y.units ∧
      (y.units ≠ (ofQuotient negative num den).units →
        gap (num <<< unitPlaces) den y.units =
          gap (num <<< unitPlaces) den (ofQuotient negative num den).units →
        Even (gridSteps num den)) := by
  have grid := shiftLeft_pos positive (gridShift num den)
  rw [units_ofQuotient finite, gap_grid]
  rcases multiple_or_units_lt y (gridShift num den) with ⟨k, point⟩ | ⟨coarse, small⟩
  · obtain ⟨near, even⟩ := nearestEven_nearest (num <<< unitPlaces) grid k
    rw [point, gap_grid]
    refine ⟨near, fun other => even ?_⟩
    rintro rfl
    exact other rfl
  · -- The first multiple with a full significand stands between the value and the quotient.
    obtain ⟨near, -⟩ := nearestEven_nearest (num <<< unitPlaces) grid hiddenBit
    have full : hiddenBit * 2 ^ gridShift num den * den ≤ num <<< unitPlaces :=
      (Nat.le_div_iff_mul_le positive).mp (full_of_gridShift coarse)
    have farther := gap_lt positive (Nat.cast_lt.mpr small) (by exact_mod_cast full)
    rw [gap_grid] at farther
    exact ⟨near.trans farther.le, fun _ tie => absurd tie (near.trans_lt farther).ne'⟩

theorem signedUnits_cases (x : Binary64) : x.signedUnits = x.units ∨ x.signedUnits < 0 := by
  unfold signedUnits
  split <;> omega

theorem signedUnits_ofQuotient (num den : ℕ) :
    (ofQuotient false num den).signedUnits = (ofQuotient false num den).units := rfl

theorem gap_lt_of_neg (positive : 0 < den)
    (finite : (ofQuotient negative num den).isFinite = true) {k : ℤ} (below : k < 0) :
    gap (num <<< unitPlaces) den (ofQuotient negative num den).units <
      gap (num <<< unitPlaces) den k := by
  refine (units_nearest positive finite zero).1.trans_lt (gap_lt positive below ?_)
  rw [units_zero, Nat.cast_zero, zero_mul]
  exact Int.natCast_nonneg _

theorem abs_toRat_sub (positive : 0 < den) (y : Binary64) :
    |y.toRat - num / den| =
      gap (num <<< unitPlaces) den y.signedUnits / (2 ^ unitPlaces * den) := by
  have unit : (0 : ℚ) < 2 ^ unitPlaces := by positivity
  have den_pos : (0 : ℚ) < den := by exact_mod_cast positive
  rw [eq_div_iff (mul_pos unit den_pos).ne', ← abs_of_pos (mul_pos unit den_pos), ← abs_mul,
    toRat_eq, gap, Nat.shiftLeft_eq, Int.cast_abs]
  push_cast
  generalize (2 : ℚ) ^ unitPlaces = u at *
  congr 1
  field_simp

theorem isNearest_ofQuotient (positive : 0 < den)
    (finite : (ofQuotient false num den).isFinite = true) :
    IsNearest (num / den) (ofQuotient false num den) := by
  have unit : (0 : ℚ) < 2 ^ unitPlaces * den := by positivity
  refine ⟨finite, fun y _ => ?_, fun y _ other tie => ?_⟩
  · rw [abs_toRat_sub positive, abs_toRat_sub positive, div_le_div_iff_of_pos_right unit,
      Int.cast_le, signedUnits_ofQuotient]
    rcases y.signedUnits_cases with plain | below
    · rw [plain]
      exact (units_nearest positive finite y).1
    · exact (gap_lt_of_neg positive finite below).le
  · rw [abs_toRat_sub positive, abs_toRat_sub positive, div_left_inj' unit.ne', Int.cast_inj,
      signedUnits_ofQuotient] at tie
    rcases y.signedUnits_cases with plain | below
    · rw [plain] at tie
      have apart : y.units ≠ (ofQuotient false num den).units := by
        intro same
        rw [toRat_eq, toRat_eq, plain, signedUnits_ofQuotient, same] at other
        exact other rfl
      exact even_fraction_ofQuotient finite ((units_nearest positive finite y).2 apart tie)
    · exact absurd tie (gap_lt_of_neg positive finite below).ne'

theorem toRat_ofQuotient_of_grid {steps : ℕ} (positive : 0 < den)
    (finite : (ofQuotient false num den).isFinite = true)
    (exact : num <<< unitPlaces = steps * (den <<< gridShift num den)) :
    (ofQuotient false num den).toRat = num / den := by
  have units : (ofQuotient false num den).units * den = num * 2 ^ unitPlaces := by
    rw [units_ofQuotient finite, gridSteps, exact, nearestEven_mul _ (shiftLeft_pos positive _),
      ← Nat.shiftLeft_eq num, exact, Nat.shiftLeft_eq den]
    ring
  have den_ne : (den : ℚ) ≠ 0 := by exact_mod_cast positive.ne'
  rw [toRat_eq, signedUnits_ofQuotient, Int.cast_natCast,
    div_eq_div_iff (pow_ne_zero _ two_ne_zero) den_ne, ← Nat.cast_mul, units, Nat.cast_mul,
    Nat.cast_pow, Nat.cast_two]

end Quotient

section Whole

variable {n : ℤ}

theorem ofInt_of_nonneg (nonneg : 0 ≤ n) : ofInt n = ofQuotient false n.natAbs 1 := by
  rw [ofInt, decide_eq_false (not_lt.mpr nonneg)]

theorem isNearest_ofInt (nonneg : 0 ≤ n) (high : n < 2 ^ 64) : IsNearest n (ofInt n) := by
  have finite := isFinite_ofInt (by omega) high
  have number : (n : ℚ) = (n.natAbs : ℕ) / (1 : ℕ) := by
    rw [Nat.cast_one, div_one, Nat.cast_natAbs, abs_of_nonneg nonneg]
  rw [ofInt_of_nonneg nonneg] at finite ⊢
  rw [number]
  exact isNearest_ofQuotient Nat.one_pos finite

/-- A number of 53 bits and zeros behind them is its own value. -/
theorem toRat_ofInt_of_bits {m k : ℕ} (bits : m < 2 ^ 53) (number : n = m * 2 ^ k)
    (high : n < 2 ^ 64) : (ofInt n).toRat = n := by
  have nonneg : 0 ≤ n := by
    rw [number]
    positivity
  have finite := isFinite_ofInt (by omega) high
  have whole : n.natAbs = m <<< k := by
    rw [number, Nat.shiftLeft_eq]
    exact_mod_cast Int.natAbs_natCast _
  rw [ofInt_of_nonneg nonneg, whole] at finite ⊢
  have coarse : gridShift (m <<< k) 1 ≤ k + unitPlaces := by
    have size := log2_shiftLeft_lt bits (k + unitPlaces) (by decide)
    rw [Nat.shiftLeft_add] at size
    rw [gridShift, Nat.div_one, spacing]
    omega
  obtain ⟨zeros, rest⟩ := Nat.exists_eq_add_of_le' coarse
  have exact : m <<< k <<< unitPlaces = m <<< zeros * (1 <<< gridShift (m <<< k) 1) := by
    rw [← Nat.shiftLeft_add, rest, Nat.shiftLeft_add, Nat.one_shiftLeft, Nat.shiftLeft_eq]
  rw [toRat_ofQuotient_of_grid Nat.one_pos finite exact, number, Nat.cast_one, div_one,
    Nat.shiftLeft_eq]
  push_cast
  rfl

theorem toRat_ofInt (nonneg : 0 ≤ n) (high : n ≤ 2 ^ 53) : (ofInt n).toRat = n := by
  rcases Int.lt_or_eq_of_le high with less | rfl
  · exact toRat_ofInt_of_bits (m := n.toNat) (k := 0) (by omega) (by omega) (by omega)
  · exact toRat_ofInt_of_bits (m := 2 ^ 52) (k := 1) (by decide) (by decide) (by decide)

theorem two_pow_lt_word {k : ℕ} (high : k < 64) : (2 : ℤ) ^ k < 2 ^ 64 :=
  pow_lt_pow_right₀ one_lt_two high

theorem toRat_ofInt_two_pow {k : ℕ} (high : k < 64) : (ofInt (2 ^ k)).toRat = 2 ^ k := by
  rw [toRat_ofInt_of_bits (m := 1) (k := k) (by decide) (by simp) (two_pow_lt_word high)]
  push_cast
  rfl

theorem toRat_ofInt_last {k : ℕ} (high : 54 + k < 64) :
    (ofInt (2 ^ (54 + k) - 2 * 2 ^ k)).toRat = 2 ^ (54 + k) - 2 * 2 ^ k := by
  have bits : (2 : ℤ) ^ (54 + k) - 2 * 2 ^ k = (2 ^ 53 - 1 : ℕ) * 2 ^ (k + 1) := by
    rw [pow_add, pow_succ]
    push_cast
    ring
  have step : (0 : ℤ) < 2 ^ k := by positivity
  have word := two_pow_lt_word high
  rw [toRat_ofInt_of_bits (by decide) bits (by omega)]
  push_cast
  rfl

theorem ofInt_middle : ∀ k < 10, ofInt (2 ^ (54 + k) - 2 ^ k) = ofInt (2 ^ (54 + k)) := by
  decide +kernel

/-- Below a power of two, numbers carry into it from the middle of the last step on. -/
theorem toRat_ofInt_eq_two_pow_iff {k : ℕ} (high : 54 + k < 64) (nonneg : 0 ≤ n)
    (below : n ≤ 2 ^ (54 + k)) :
    (ofInt n).toRat = 2 ^ (54 + k) ↔ 2 ^ (54 + k) - 2 ^ k ≤ n := by
  have word := two_pow_lt_word high
  have step : (0 : ℤ) < 2 ^ k := by positivity
  have scale : (2 : ℤ) ^ (54 + k) = 2 ^ 54 * 2 ^ k := pow_add ..
  have nearest := isNearest_ofInt nonneg (by omega)
  constructor
  · intro carried
    have last := toRat_ofInt_last high
    have finite : (ofInt (2 ^ (54 + k) - 2 * 2 ^ k)).isFinite = true :=
      isFinite_ofInt (by omega) (by omega)
    have step' : (0 : ℚ) < 2 ^ k := by positivity
    have middle := nearest.add_le_two_mul finite (by linarith)
    rw [carried, last] at middle
    have half : (2 ^ (54 + k) - 2 ^ k : ℚ) ≤ n := by linarith
    exact_mod_cast half
  · intro close
    rw [← toRat_ofInt_two_pow high]
    have carry : (ofInt (2 ^ (54 + k))).toRat ≤ (ofInt n).toRat := by
      rw [← ofInt_middle k (by omega)]
      exact (isNearest_ofInt (by omega) (by omega)).mono nearest (by exact_mod_cast close)
    have bound := nearest.mono (isNearest_ofInt (by omega) word) (by exact_mod_cast below)
    exact bound.antisymm carry

end Whole

end RuleFeed.Binary64
