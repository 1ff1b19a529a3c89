import Mathlib.Algebra.Group.Nat.Defs
import RuleFeed.Binary64.Rounding

/-!
Finite values in units. A value is its significand, shifted as often as its exponent says, so the
places and the significand make up the magnitude and the number of units alike. The sign goes with
the units, and a value that is no NaN is nonnegative as its signed number of units is.
-/
namespace RuleFeed.Binary64

theorem nearestEven_mul (q : Nat) {den : Nat} (positive : 0 < den) :
    nearestEven (q * den) den = q := by
  have below : compare (2 * (q * den % den)) den = .lt := by
    rw [Nat.mul_mod_left, Nat.compare_eq_lt]
    exact positive
  rw [nearestEven, below, Nat.mul_div_cancel q positive]

def places (x : Binary64) : Nat := x.magnitude / hiddenBit - 1

/-- The significand of a value, with the hidden bit where there is one. -/
def significand (x : Binary64) : Nat :=
  if x.magnitude < hiddenBit then x.magnitude else hiddenBit + x.magnitude % hiddenBit

theorem units_eq (x : Binary64) : x.units = x.significand * 2 ^ x.places := by
  unfold units significand places
  split
  case isTrue small => rw [Nat.div_eq_of_lt small, Nat.zero_sub, Nat.pow_zero, Nat.mul_one]
  case isFalse => rw [Nat.shiftLeft_eq]

theorem magnitude_eq (x : Binary64) : x.places * hiddenBit + x.significand = x.magnitude := by
  unfold places significand
  split <;> simp only [hiddenBit] at * <;> omega

theorem significand_lt (x : Binary64) : x.significand < 2 * hiddenBit := by
  unfold significand
  split
  case isTrue small => exact Nat.lt_trans small (by decide)
  case isFalse =>
    rw [Nat.two_mul]
    exact Nat.add_lt_add_left (Nat.mod_lt _ (by decide)) hiddenBit

theorem le_significand {x : Binary64} (large : ¬ x.magnitude < hiddenBit) :
    hiddenBit ≤ x.significand := by
  rw [significand, if_neg large]
  exact Nat.le_add_right _ _

theorem spacing_units (x : Binary64) : spacing x.units = x.places := by
  rw [units_eq]
  by_cases small : x.magnitude < hiddenBit
  · have unshifted : x.places = 0 := by rw [places, Nat.div_eq_of_lt small]
    have bits : x.magnitude.log2 < 53 := by
      by_cases zero : x.magnitude = 0
      · rw [zero]
        decide
      · exact (Nat.log2_lt zero).mpr (Nat.lt_trans small (by decide))
    rw [unshifted, significand, if_pos small, Nat.pow_zero, Nat.mul_one, spacing]
    omega
  · have low : 2 ^ 52 ≤ x.significand := le_significand small
    have high : x.significand < 2 ^ 53 := x.significand_lt
    have nonzero : x.significand * 2 ^ x.places ≠ 0 :=
      Nat.ne_of_gt (Nat.mul_pos (Nat.lt_of_lt_of_le (by decide) low) (Nat.two_pow_pos _))
    have bits : (x.significand * 2 ^ x.places).log2 = 52 + x.places := by
      refine (Nat.log2_eq_iff nonzero).mpr ⟨?_, ?_⟩
      · rw [Nat.pow_add]
        exact Nat.mul_le_mul_right _ low
      · rw [Nat.add_right_comm, Nat.pow_add]
        exact Nat.mul_lt_mul_of_pos_right high (Nat.two_pow_pos _)
    rw [spacing, bits, Nat.add_sub_cancel_left]

theorem shiftLeft_pos {den : Nat} (positive : 0 < den) (shift : Nat) : 0 < den <<< shift := by
  rw [Nat.shiftLeft_eq]
  exact Nat.mul_pos positive (Nat.two_pow_pos _)

theorem magnitude_of_units_eq_zero {x : Binary64} (zero : x.units = 0) : x.magnitude = 0 := by
  rw [units_eq] at zero
  have none := (Nat.mul_eq_zero.mp zero).resolve_right (Nat.ne_of_gt (Nat.two_pow_pos _))
  rw [significand] at none
  split at none
  case isTrue => exact none
  case isFalse => exact absurd (Nat.add_eq_zero_iff.mp none).1 (by decide)

/-- A value with its sign, in units. An infinity lies beyond every finite value. -/
def signedUnits (x : Binary64) : Int := if x.negative then -x.units else x.units

theorem isNonneg_iff (x : Binary64) :
    x.isNonneg = true ↔ x.isNaN = false ∧ 0 ≤ x.signedUnits := by
  have zero : x.units = 0 ↔ x.magnitude = 0 := by
    refine ⟨magnitude_of_units_eq_zero, fun none => ?_⟩
    rw [units, none, if_pos (by decide)]
  unfold isNonneg signedUnits
  cases x.negative with
  | false => simp
  | true =>
    simp only [Bool.not_true, Bool.false_or, Bool.and_eq_true, Bool.not_eq_true', beq_iff_eq,
      if_true, ← zero]
    exact and_congr_right fun _ => by omega

/-- A unit is 2^-1074. -/
def unitPlaces : Nat := 1074

end RuleFeed.Binary64
