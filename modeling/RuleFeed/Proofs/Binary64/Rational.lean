import Mathlib.Data.Rat.Floor
import Mathlib.Tactic.Ring
import RuleFeed.Binary64.Truncation
import RuleFeed.Proofs.Binary64.Exact

/-!
Values as rational numbers, by the definition of the format. A saturating cast is the rational
number cut off after the point and held in the range of its target, and two values compare equal
if they are numbers and the same one. Both come down to units.
-/
namespace RuleFeed.Binary64

def exponent (x : Binary64) : ℕ := x.magnitude / 2 ^ 52

def fraction (x : Binary64) : ℕ := x.magnitude % 2 ^ 52

/-- The absolute value of a finite value. An infinity is taken for 2^1024, which is more than any
finite value. -/
def size (x : Binary64) : ℚ :=
  if x.exponent = 0 then 2 ^ (-1022 : ℤ) * (x.fraction / 2 ^ 52)
  else 2 ^ ((x.exponent : ℤ) - 1023) * (1 + x.fraction / 2 ^ 52)

def toRat (x : Binary64) : ℚ := if x.negative then -x.size else x.size

theorem two_zpow_eq {e : ℤ} {k : ℕ} (h : e + unitPlaces = k) :
    (2 : ℚ) ^ e = 2 ^ k / 2 ^ unitPlaces := by
  rw [eq_div_iff (pow_ne_zero _ two_ne_zero), ← zpow_natCast, ← zpow_natCast,
    ← zpow_add₀ two_ne_zero, h]

theorem size_eq (x : Binary64) : x.size = x.units / 2 ^ unitPlaces := by
  have split : 2 ^ 52 * x.exponent + x.fraction = x.magnitude := Nat.div_add_mod _ _
  have bound : x.fraction < 2 ^ 52 := Nat.mod_lt _ (by decide)
  by_cases small : x.exponent = 0
  · have units : x.units = x.fraction := by
      rw [small, Nat.mul_zero, Nat.zero_add] at split
      have unhidden : x.magnitude < hiddenBit := split ▸ bound
      rw [Binary64.units, if_pos unhidden, split]
    rw [size, if_pos small, units, two_zpow_eq (k := 52) rfl]
    ring
  · have units : x.units = (2 ^ 52 + x.fraction) * 2 ^ (x.exponent - 1) := by
      have large : ¬ x.magnitude < hiddenBit := by
        simp only [hiddenBit]
        omega
      rw [Binary64.units, if_neg large, Nat.shiftLeft_eq]
      rfl
    have scale : ((x.exponent : ℤ) - 1023) + unitPlaces = (52 + (x.exponent - 1) : ℕ) := by
      simp only [unitPlaces]
      omega
    rw [size, if_neg small, units, two_zpow_eq scale, pow_add]
    push_cast
    ring

theorem toRat_eq (x : Binary64) : x.toRat = x.signedUnits / 2 ^ unitPlaces := by
  rw [toRat, size_eq, signedUnits]
  cases x.negative <;> simp [neg_div]

/-- What stands before the point of a number. -/
def wholePart (q : ℚ) : ℤ := if 0 ≤ q then ⌊q⌋ else ⌈q⌉

/-- A value toward zero, but no further than the ends of a range; a NaN is zero. -/
def saturated (low high : ℤ) (x : Binary64) : ℤ :=
  if x.isNaN then 0
  else if x = infinity false then high
  else if x = infinity true then low
  else max low (min high (wholePart x.toRat))

theorem wholePart_neg (q : ℚ) : wholePart (-q) = -wholePart q := by
  unfold wholePart
  rcases lt_trichotomy q 0 with negative | rfl | positive
  · rw [if_pos (by linarith), if_neg (by linarith), Int.floor_neg]
  · simp
  · rw [if_neg (by linarith), if_pos (by linarith), Int.ceil_neg]

theorem wholePart_toRat (x : Binary64) : wholePart x.toRat = x.truncate := by
  have whole : wholePart x.size = (x.units >>> unitPlaces : ℕ) := by
    rw [size_eq, wholePart, if_pos (by positivity), Nat.shiftRight_eq_div_pow]
    exact_mod_cast Rat.floor_natCast_div_natCast x.units (2 ^ unitPlaces)
  unfold toRat truncate
  split
  · rw [wholePart_neg, whole]
    rfl
  · exact whole

theorem eq_infinity_iff (x : Binary64) (negative : Bool) :
    x = infinity negative ↔ x.negative = negative ∧ x.magnitude = infinite := by
  cases x
  simp [infinity]

theorem ne_infinity_of_isFinite {x : Binary64} (finite : x.isFinite = true) (negative : Bool) :
    x ≠ infinity negative := by
  rintro rfl
  cases negative <;> cases finite

theorem infinite_or_isFinite {x : Binary64} (number : x.isNaN = false) :
    x = infinity true ∨ x = infinity false ∨ x.isFinite = true := by
  have bound : x.magnitude ≤ infinite := by simpa [isNaN] using number
  simp only [eq_infinity_iff, isFinite, decide_eq_true_eq]
  rcases Nat.lt_or_eq_of_le bound with finite | infinite
  · exact .inr (.inr finite)
  · cases x.negative <;> simp [infinite]

theorem clampTo_eq_saturated (low high : ℤ) (x : Binary64) :
    clampTo low high x = saturated low high x := by
  cases number : x.isNaN with
  | true => rw [clampTo, saturated, if_pos number, if_pos number]
  | false =>
    rcases infinite_or_isFinite number with rfl | rfl | finite
    · rfl
    · rfl
    · rw [clampTo, saturated, wholePart_toRat, number, finite,
        if_neg (ne_infinity_of_isFinite finite _), if_neg (ne_infinity_of_isFinite finite _)]
      rfl

theorem toInt_toInt64 (x : Binary64) :
    x.toInt64.toInt = saturated (-2 ^ 63) (2 ^ 63 - 1) x := by
  obtain ⟨low, high⟩ :=
    clampTo_mem x (by decide : (-2 ^ 63 : ℤ) ≤ 0) (by decide : (0 : ℤ) ≤ 2 ^ 63 - 1)
  rw [← clampTo_eq_saturated]
  exact Int64.toInt_ofInt_of_le low (Int.lt_of_le_of_lt high (by decide))

theorem toNat_toUInt64 (x : Binary64) :
    (x.toUInt64.toNat : ℤ) = saturated 0 (2 ^ 64 - 1) x := by
  obtain ⟨low, high⟩ := clampTo_mem x (le_refl 0) (by decide : (0 : ℤ) ≤ 2 ^ 64 - 1)
  have word : x.toUInt64.toNat = (x.clampTo 0 (2 ^ 64 - 1)).toNat :=
    UInt64.toNat_ofNat_of_lt' ((Int.toNat_lt low).mpr (Int.lt_of_le_of_lt high (by decide)))
  rw [word, Int.toNat_of_nonneg low, clampTo_eq_saturated]

/-- Both are numbers, and the same one. -/
def SameNumber (x y : Binary64) : Prop :=
  x.isNaN = false ∧ y.isNaN = false ∧ x.toRat = y.toRat

theorem magnitude_of_units (x : Binary64) :
    x.magnitude = spacing x.units * hiddenBit + x.units / 2 ^ spacing x.units := by
  rw [spacing_units, units_eq, Nat.mul_div_cancel _ (Nat.two_pow_pos _), magnitude_eq]

theorem units_inj {x y : Binary64} : x.units = y.units ↔ x.magnitude = y.magnitude := by
  constructor <;> intro same
  · rw [magnitude_of_units, magnitude_of_units y, same]
  · rw [units, units, same]

theorem units_eq_zero_iff (x : Binary64) : x.units = 0 ↔ x.magnitude = 0 :=
  units_inj (y := zero)

theorem signedUnits_inj {x y : Binary64} :
    x.signedUnits = y.signedUnits ↔
      x.magnitude = y.magnitude ∧ (x.negative = y.negative ∨ x.magnitude = 0) := by
  have same := units_inj (x := x) (y := y)
  have none := units_eq_zero_iff x
  unfold signedUnits
  cases x.negative <;> cases y.negative <;> simp only [Bool.false_eq_true, if_true, if_false]
  all_goals simp
  all_goals omega

theorem agrees_iff (x y : Binary64) : x.agrees y = true ↔ x.SameNumber y := by
  have same : x.toRat = y.toRat ↔ x.signedUnits = y.signedUnits := by
    rw [toRat_eq, toRat_eq, div_left_inj' (pow_ne_zero _ two_ne_zero), Int.cast_inj]
  simp only [SameNumber, same, signedUnits_inj, agrees, Bool.and_eq_true, Bool.not_eq_true',
    Bool.or_eq_true, beq_iff_eq, and_assoc]

end RuleFeed.Binary64
