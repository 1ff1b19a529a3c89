import Mathlib.Algebra.Group.Nat.Defs
import RuleFeed.Binary64.Rounding

/-!
Integers of 64 bits as binary64 values. Rounding moves a quotient by less than one step of the
grid, and the grid reaches far beyond these integers, so none of them rounds to infinity.
-/
namespace RuleFeed.Binary64

theorem nearestEven_le (num den : Nat) : nearestEven num den ≤ num / den + 1 := by
  unfold nearestEven
  repeat' split
  all_goals omega

theorem shifted_lt (scaled : Nat) : scaled / (1 <<< spacing scaled) < 2 * hiddenBit := by
  rw [Nat.one_shiftLeft, Nat.div_lt_iff_lt_mul (Nat.two_pow_pos _)]
  have bound : scaled < 2 ^ (scaled.log2 + 1) := Nat.lt_log2_self
  have bits : scaled.log2 + 1 ≤ 53 + spacing scaled := by
    unfold spacing
    omega
  calc scaled < 2 ^ (scaled.log2 + 1) := bound
    _ ≤ 2 ^ (53 + spacing scaled) := Nat.pow_le_pow_right (by decide) bits
    _ = 2 * hiddenBit * 2 ^ spacing scaled := by rw [Nat.pow_add]; rfl

theorem log2_shiftLeft_lt {n bits : Nat} (h : n < 2 ^ bits) (k : Nat) (positive : 0 < bits) :
    (n <<< k).log2 < bits + k := by
  have shifted : n <<< k < 2 ^ (bits + k) := by
    rw [Nat.shiftLeft_eq, Nat.pow_add]
    exact Nat.mul_lt_mul_of_pos_right h (Nat.two_pow_pos _)
  by_cases zero : n <<< k = 0
  · rw [zero, Nat.log2_zero]
    omega
  · exact (Nat.log2_lt zero).mpr shifted

theorem nearestMagnitude_lt_infinite {n : Nat} (h : n < 0x10000000000000000) :
    nearestMagnitude n 1 < infinite := by
  have log : (n <<< 1074).log2 < 64 + 1074 := log2_shiftLeft_lt h 1074 (by decide)
  have steps : spacing (n <<< 1074) ≤ 1085 := by
    unfold spacing
    omega
  have rounded := nearestEven_le (n <<< 1074) (1 <<< spacing (n <<< 1074))
  have significand := shifted_lt (n <<< 1074)
  have whole : spacing (n <<< 1074) * hiddenBit +
      nearestEven (n <<< 1074) (1 <<< spacing (n <<< 1074)) < infinite := by
    have grid := Nat.mul_le_mul_right hiddenBit steps
    simp only [hiddenBit, infinite] at significand grid ⊢
    omega
  rw [nearestMagnitude, Nat.div_one]
  exact Nat.lt_of_le_of_lt (Nat.min_le_left _ _) whole

theorem isFinite_ofInt {z : Int} (low : -0x8000000000000000 ≤ z) (high : z < 0x10000000000000000) :
    (ofInt z).isFinite = true :=
  decide_eq_true (nearestMagnitude_lt_infinite (by omega))

theorem isNaN_eq_false_of_isFinite {x : Binary64} (finite : x.isFinite = true) :
    x.isNaN = false := by
  simp only [isFinite, isNaN, decide_eq_true_eq, decide_eq_false_iff_not] at finite ⊢
  omega

theorem isNonneg_ofInt {z : Int} (nonneg : 0 ≤ z) (high : z < 0x10000000000000000) :
    (ofInt z).isNonneg = true := by
  have number := isNaN_eq_false_of_isFinite (isFinite_ofInt (by omega) high)
  have sign : (ofInt z).negative = false := decide_eq_false (by omega)
  rw [isNonneg, number, sign]
  rfl

end RuleFeed.Binary64
