import Mathlib.Order.WithBot
import RuleFeed.Proofs.Binary64.Finite
import RuleFeed.Proofs.Binary64.Rational
import RuleFeed.Record.Breaker
import RuleFeed.Record.HotSpot

/-!
What a saturating cast keeps. The values that are no NaN stand on a line with an infinity at each
end, and a saturating cast maps that line to whole numbers without ever turning back. It leaves
alone the whole numbers in its range, and since zero is one of them, no value is cast to the other
side of zero. Two numbers of a rule are such casts: the threshold of an override, and the response
time from which a request is slow.
-/
namespace RuleFeed

namespace Binary64

/-- The place of a value on the line of numbers with an infinity at each end. -/
def extended (x : Binary64) : WithBot (WithTop ℚ) :=
  if x = infinity false then ⊤
  else if x = infinity true then ⊥
  else (x.toRat : WithTop ℚ)

/-- The cast saturates at the ends of a range: it is the whole part of a value where that lies in
the range, so it changes no whole number there, reverses no order and crosses no zero. -/
structure Saturates (low high : ℤ) (cast : Binary64 → ℤ) : Prop where
  value : ∀ x, cast x = saturated low high x
  whole : ∀ (x : Binary64) (n : ℤ), x.isFinite = true → x.toRat = n → low ≤ n → n ≤ high →
    cast x = n
  mono : ∀ x y, x.isNaN = false → y.isNaN = false → x.extended ≤ y.extended → cast x ≤ cast y
  positive : ∀ x, 0 < cast x → 0 < x.extended
  negative : ∀ x, cast x < 0 → x.extended < 0

theorem wholePart_intCast (n : ℤ) : wholePart n = n := by
  unfold wholePart
  split
  · exact Int.floor_intCast n
  · exact Int.ceil_intCast n

theorem wholePart_mono {p q : ℚ} (le : p ≤ q) : wholePart p ≤ wholePart q := by
  unfold wholePart
  split_ifs with hp hq hq
  · exact Int.floor_le_floor le
  · exact absurd (hp.trans le) hq
  · have below : ⌈p⌉ ≤ 0 := Int.ceil_le.mpr (by exact_mod_cast (not_le.mp hp).le)
    exact below.trans (Int.floor_nonneg.mpr hq)
  · exact Int.ceil_le_ceil le

theorem extended_infinity (negative : Bool) :
    (infinity negative).extended = if negative then ⊥ else ⊤ := by
  cases negative <;> rfl

theorem extended_of_isFinite {x : Binary64} (finite : x.isFinite = true) :
    x.extended = ((x.toRat : WithTop ℚ) : WithBot (WithTop ℚ)) := by
  rw [extended, if_neg (ne_infinity_of_isFinite finite _),
    if_neg (ne_infinity_of_isFinite finite _)]

theorem extended_zero : zero.extended = 0 := by
  rw [extended_of_isFinite rfl, toRat_eq]
  simp [signedUnits]

section Saturated

variable {low high : ℤ} {x y : Binary64}

theorem saturated_of_isFinite (finite : x.isFinite = true) :
    saturated low high x = max low (min high (wholePart x.toRat)) := by
  rw [saturated, isNaN_eq_false_of_isFinite finite, if_neg Bool.false_ne_true,
    if_neg (ne_infinity_of_isFinite finite _), if_neg (ne_infinity_of_isFinite finite _)]

theorem saturated_mem (x : Binary64) (hl : low ≤ 0) (hh : 0 ≤ high) :
    low ≤ saturated low high x ∧ saturated low high x ≤ high := by
  rw [← clampTo_eq_saturated]
  exact clampTo_mem x hl hh

theorem saturated_of_whole {n : ℤ} (finite : x.isFinite = true) (whole : x.toRat = n)
    (above : low ≤ n) (below : n ≤ high) : saturated low high x = n := by
  rw [saturated_of_isFinite finite, whole, wholePart_intCast, min_eq_right below,
    max_eq_right above]

theorem saturated_mono (hl : low ≤ 0) (hh : 0 ≤ high) (hx : x.isNaN = false)
    (hy : y.isNaN = false) (le : x.extended ≤ y.extended) :
    saturated low high x ≤ saturated low high y := by
  rcases infinite_or_isFinite hx with rfl | rfl | finite
  · exact (saturated_mem y hl hh).1
  · rcases infinite_or_isFinite hy with rfl | rfl | finite
    · simp [extended_infinity] at le
    · exact le_rfl
    · simp [extended_infinity, extended_of_isFinite finite] at le
  · rcases infinite_or_isFinite hy with rfl | rfl | finite'
    · simp [extended_infinity, extended_of_isFinite finite] at le
    · exact (saturated_mem x hl hh).2
    · rw [extended_of_isFinite finite, extended_of_isFinite finite'] at le
      have numbers : x.toRat ≤ y.toRat := by exact_mod_cast le
      rw [saturated_of_isFinite finite, saturated_of_isFinite finite']
      exact max_le_max le_rfl (min_le_min le_rfl (wholePart_mono numbers))

theorem saturated_zero (hl : low ≤ 0) (hh : 0 ≤ high) : saturated low high zero = 0 :=
  saturated_of_whole rfl (by simp [toRat_eq, signedUnits]) hl hh

theorem saturated_nonpos (hl : low ≤ 0) (hh : 0 ≤ high) (nonpos : x.extended ≤ 0) :
    saturated low high x ≤ 0 := by
  cases number : x.isNaN with
  | true => rw [saturated, if_pos number]
  | false =>
    rw [← saturated_zero hl hh]
    exact saturated_mono hl hh number rfl (nonpos.trans_eq extended_zero.symm)

theorem saturated_nonneg (hl : low ≤ 0) (hh : 0 ≤ high) (nonneg : 0 ≤ x.extended) :
    0 ≤ saturated low high x := by
  cases number : x.isNaN with
  | true => rw [saturated, if_pos number]
  | false =>
    rw [← saturated_zero hl hh]
    exact saturated_mono hl hh rfl number (extended_zero.trans_le nonneg)

theorem saturates_of_eq {cast : Binary64 → ℤ} (hl : low ≤ 0) (hh : 0 ≤ high)
    (value : ∀ x, cast x = saturated low high x) : Saturates low high cast where
  value := value
  whole x n finite whole above below := by
    rw [value, saturated_of_whole finite whole above below]
  mono x y hx hy le := by
    rw [value, value]
    exact saturated_mono hl hh hx hy le
  positive x positive := by
    refine lt_of_not_ge fun nonpos => ?_
    rw [value] at positive
    exact absurd (saturated_nonpos hl hh nonpos) (not_le.mpr positive)
  negative x negative := by
    refine lt_of_not_ge fun nonneg => ?_
    rw [value] at negative
    exact absurd (saturated_nonneg hl hh nonneg) (not_le.mpr negative)

end Saturated
end Binary64

/-- Both casts saturate, the signed one of overrides and the unsigned one of slow requests. -/
theorem thresholds_saturate :
    Binary64.Saturates (-2 ^ 63) (2 ^ 63 - 1) (fun x => x.toInt64.toInt) ∧
    Binary64.Saturates 0 (2 ^ 64 - 1) (fun x => x.toUInt64.toNat) ∧
    (∀ i : OverrideItem, i.value ≠ "" →
      ∃ o, i.override? = some o ∧ o.threshold = i.threshold.toInt64) ∧
    ∀ r : BreakerRecord, r.grade = 0 →
      ∃ made, r.rule? = some made ∧ made.maxAllowedRtMs = r.threshold.toUInt64 := by
  refine ⟨Binary64.saturates_of_eq (by decide) (by decide) Binary64.toInt_toInt64,
    Binary64.saturates_of_eq le_rfl (by decide) Binary64.toNat_toUInt64, ?_, ?_⟩
  · intro i present
    exact ⟨_, if_neg present, rfl⟩
  · intro r slow
    refine ⟨r.ruleWith .slowRequestRatio, ?_, rfl⟩
    rw [BreakerRecord.rule?, slow]
    rfl

/-- The last value below 2^63 is left alone, an infinity is cast to the last integer, and a value
just above -2 is cast to -1. -/
theorem thresholds_saturate_last :
    let last : Binary64 := .ofBits 0x43dfffffffffffff
    let above : Binary64 := .infinity false
    let below : Binary64 := .ofBits 0xbfffffffffffffff
    let i : OverrideItem := ⟨"7", last, "long"⟩
    let r : BreakerRecord := ⟨1, "rpc", above, 0, 1, 0, .zero, 0⟩
    (last.toRat = (9223372036854774784 : ℤ) ∧ last.toInt64.toInt = 9223372036854774784) ∧
    (last.extended ≤ above.extended ∧ last.toUInt64.toNat ≤ above.toUInt64.toNat) ∧
    (below.toInt64.toInt = -1 ∧ below.extended < 0) ∧
    (above.toUInt64 = 18446744073709551615 ∧ 0 < above.extended) ∧
    (∃ o, i.override? = some o ∧ o.threshold = last.toInt64) ∧
    ∃ made, r.rule? = some made ∧ made.maxAllowedRtMs = above.toUInt64 := by
  intro last above below i r
  obtain ⟨signed, unsigned, overrides, bounds⟩ := thresholds_saturate
  have number : last.toRat = (9223372036854774784 : ℤ) := by decide +kernel
  have order : last.extended ≤ above.extended := le_top
  have cut : below.toInt64.toInt = -1 := by decide +kernel
  have ends : above.toUInt64 = 18446744073709551615 := by decide +kernel
  have mono := unsigned.mono last above (by decide) (by decide) order
  have positive := unsigned.positive above (by decide +kernel)
  have negative := signed.negative below (by decide +kernel)
  exact ⟨⟨number, signed.whole last _ (by decide) number (by decide) (by decide)⟩,
    ⟨order, Int.ofNat_le.mp mono⟩, ⟨cut, negative⟩, ⟨ends, positive⟩,
    overrides i (by decide), bounds r rfl⟩

end RuleFeed
