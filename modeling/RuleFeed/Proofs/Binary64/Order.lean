import Mathlib.Algebra.Order.Field.Basic
import Mathlib.Tactic.Positivity
import RuleFeed.Proofs.Binary64.Rational

/-!
The values in a row. Numbered by magnitude and sign, the values stand in the order of what they
stand for, and both zeros have one number. An even fraction is an even number there, so between two
values with even fractions there is a third.
-/
namespace RuleFeed.Binary64

section Order

variable {x y : Binary64}

theorem units_lt {shift : ℕ} (fine : x.places < shift) : x.units < hiddenBit * 2 ^ shift := by
  calc x.units = x.significand * 2 ^ x.places := x.units_eq
    _ < 2 * hiddenBit * 2 ^ x.places :=
        Nat.mul_lt_mul_of_pos_right x.significand_lt (Nat.two_pow_pos _)
    _ = hiddenBit * 2 ^ (x.places + 1) := by ring
    _ ≤ hiddenBit * 2 ^ shift := Nat.mul_le_mul_left _ (Nat.pow_le_pow_right (by decide) fine)

theorem le_units (shifted : 0 < x.places) : hiddenBit * 2 ^ x.places ≤ x.units := by
  have large : ¬ x.magnitude < hiddenBit := by
    intro small
    rw [places, Nat.div_eq_of_lt small] at shifted
    exact absurd shifted (by decide)
  rw [units_eq]
  exact Nat.mul_le_mul_right _ (le_significand large)

theorem units_lt_of_magnitude_lt (lt : x.magnitude < y.magnitude) : x.units < y.units := by
  have row : x.places ≤ y.places := Nat.sub_le_sub_right (Nat.div_le_div_right lt.le) 1
  rcases Nat.lt_or_eq_of_le row with less | same
  · exact (units_lt less).trans_le (le_units (Nat.zero_lt_of_lt less))
  · have lower : x.significand < y.significand := by
      rw [← magnitude_eq x, ← magnitude_eq y, same] at lt
      exact Nat.lt_of_add_lt_add_left lt
    rw [units_eq, units_eq, same]
    exact Nat.mul_lt_mul_of_pos_right lower (Nat.two_pow_pos _)

theorem units_lt_iff : x.units < y.units ↔ x.magnitude < y.magnitude := by
  refine ⟨fun less => ?_, units_lt_of_magnitude_lt⟩
  rcases lt_trichotomy x.magnitude y.magnitude with lt | same | gt
  · exact lt
  · exact absurd (units_inj.mpr same) less.ne
  · exact absurd (units_lt_of_magnitude_lt gt) less.asymm

/-- The number of a value in the row of all values, with both zeros in the middle. -/
def rank (x : Binary64) : ℤ := if x.negative then -x.magnitude else x.magnitude

theorem signedUnits_lt_iff : x.signedUnits < y.signedUnits ↔ x.rank < y.rank := by
  have lt := units_lt_iff (x := x) (y := y)
  have gt := units_lt_iff (x := y) (y := x)
  have none_x := units_eq_zero_iff x
  have none_y := units_eq_zero_iff y
  unfold signedUnits rank
  cases x.negative <;> cases y.negative <;> simp only [Bool.false_eq_true, if_true, if_false]
  all_goals omega

theorem toRat_lt_iff : x.toRat < y.toRat ↔ x.rank < y.rank := by
  rw [toRat_eq, toRat_eq, div_lt_div_iff_of_pos_right (by positivity), Int.cast_lt,
    signedUnits_lt_iff]

theorem toRat_nonneg (sign : x.negative = false) : 0 ≤ x.toRat := by
  rw [toRat, sign, if_neg Bool.false_ne_true, size_eq]
  positivity

theorem abs_rank_lt (finite : x.isFinite = true) : |x.rank| < infinite := by
  have bound : x.magnitude < infinite := of_decide_eq_true finite
  have size : |x.rank| = x.magnitude := by
    unfold rank
    split <;> simp
  rw [size]
  exact_mod_cast bound

theorem exists_of_rank {r : ℤ} (bound : |r| < infinite) :
    ∃ z : Binary64, z.isFinite = true ∧ z.rank = r := by
  rw [← Int.natCast_natAbs, Nat.cast_lt] at bound
  refine ⟨⟨decide (r < 0), r.natAbs, bound.trans (by decide)⟩, decide_eq_true bound, ?_⟩
  simp only [rank, decide_eq_true_eq]
  omega

theorem even_fraction_iff : Even x.fraction ↔ Even x.rank := by
  have parity : Even x.fraction ↔ Even x.magnitude := by
    rw [fraction, Nat.even_iff, Nat.even_iff]
    omega
  rw [parity, rank]
  split <;> simp

theorem exists_between (hx : x.isFinite = true) (hy : y.isFinite = true) (even_x : Even x.fraction)
    (even_y : Even y.fraction) (lt : x.toRat < y.toRat) :
    ∃ z : Binary64, z.isFinite = true ∧ x.toRat < z.toRat ∧ z.toRat < y.toRat := by
  rw [even_fraction_iff] at even_x even_y
  rw [toRat_lt_iff] at lt
  have bound_x := abs_lt.mp (abs_rank_lt hx)
  have bound_y := abs_lt.mp (abs_rank_lt hy)
  have next : x.rank + 1 < y.rank := by
    rw [Int.even_iff] at even_x even_y
    omega
  obtain ⟨z, finite, rank⟩ := exists_of_rank (r := x.rank + 1) (abs_lt.mpr (by omega))
  refine ⟨z, finite, ?_, ?_⟩
  · rw [toRat_lt_iff, rank]
    exact lt_add_one _
  · rw [toRat_lt_iff, rank]
    exact next

end Order
end RuleFeed.Binary64
