import RuleFeed.Proofs.Binary64.Rational
import RuleFeed.Proofs.Text.Decimal
import RuleFeed.Record

/-!
What a circuit breaking record says. Its grade decides whether it has a rule at all and which of
its two numbers is the threshold: for slow requests the count is a bound on the response time, cut
to whole milliseconds, and the ratio beside it is the threshold; for failed requests the count is
the threshold and the ratio says nothing.
-/
namespace RuleFeed

def BreakerStrategy.grade : BreakerStrategy → UInt32
  | .slowRequestRatio => 0
  | .errorRatio => 1
  | .errorCount => 2

theorem BreakerStrategy.ofGrade?_eq_some_iff {grade : UInt32} {strategy : BreakerStrategy} :
    ofGrade? grade = some strategy ↔ grade = strategy.grade := by
  cases strategy <;> grind [ofGrade?, BreakerStrategy.grade]

theorem BreakerStrategy.ofGrade?_eq_none_iff {grade : UInt32} :
    ofGrade? grade = none ↔ 2 < grade := by
  grind [ofGrade?]

theorem BreakerStrategy.grade_eq_zero_iff {strategy : BreakerStrategy} :
    strategy.grade = 0 ↔ strategy = .slowRequestRatio := by
  cases strategy <;> decide

attribute [ext] BreakerRule

namespace BreakerRecord

structure Makes (r : BreakerRecord) (made : BreakerRule) : Prop where
  id : Decimal.Canonical made.id r.id.toNat
  resource : made.resource = r.resource
  strategy : r.grade = made.strategy.grade
  retryTimeout : made.retryTimeoutMs.toNat = min (1000 * r.retryTimeoutSec.toNat) (2 ^ 32 - 1)
  minRequestAmount : made.minRequestAmount = r.minRequestAmount
  statInterval : made.statIntervalMs = r.statIntervalMs
  slow : r.grade = 0 →
    made.threshold = r.slowRatioThreshold ∧
      made.maxAllowedRtMs.toNat = r.threshold.saturated 0 (2 ^ 64 - 1)
  failed : r.grade ≠ 0 → made.threshold = r.threshold ∧ made.maxAllowedRtMs = 0

section Translation

variable {r : BreakerRecord} {made : BreakerRule}

theorem makes_ruleWith {strategy : BreakerStrategy} (graded : r.grade = strategy.grade) :
    r.Makes (r.ruleWith strategy) where
  id := Decimal.canonical_write _
  resource := rfl
  strategy := graded
  retryTimeout := by
    rw [ruleWith, toNat_millisOfSec, Nat.mul_comm]
    rfl
  minRequestAmount := rfl
  statInterval := rfl
  slow zero := by
    obtain rfl := BreakerStrategy.grade_eq_zero_iff.mp (graded.symm.trans zero)
    exact ⟨rfl, r.threshold.toNat_toUInt64⟩
  failed nonzero := by
    have failed : strategy ≠ .slowRequestRatio := fun slow =>
      nonzero (graded.trans (BreakerStrategy.grade_eq_zero_iff.mpr slow))
    exact ⟨if_neg failed, if_neg failed⟩

theorem Makes.eq_ruleWith (h : r.Makes made) : made = r.ruleWith made.strategy := by
  have numbers : made.maxAllowedRtMs = (r.ruleWith made.strategy).maxAllowedRtMs ∧
      made.threshold = (r.ruleWith made.strategy).threshold := by
    have slow_iff : r.grade = 0 ↔ made.strategy = .slowRequestRatio := by
      rw [h.strategy, BreakerStrategy.grade_eq_zero_iff]
    by_cases zero : r.grade = 0
    · obtain ⟨threshold, bound⟩ := h.slow zero
      rw [← r.threshold.toNat_toUInt64, Nat.cast_inj, UInt64.toNat_inj] at bound
      simp only [ruleWith, slow_iff.mp zero, threshold, bound, if_true, and_self]
    · obtain ⟨threshold, bound⟩ := h.failed zero
      simp only [ruleWith, mt slow_iff.mpr zero, threshold, bound, if_false, and_self]
  have retryTimeout : made.retryTimeoutMs = millisOfSec r.retryTimeoutSec := by
    rw [← UInt32.toNat_inj, toNat_millisOfSec, h.retryTimeout, Nat.mul_comm]
    rfl
  exact BreakerRule.ext (Decimal.canonical_iff.mp h.id) h.resource rfl retryTimeout
    h.minRequestAmount h.statInterval numbers.1 numbers.2

theorem rule?_eq_some_iff : r.rule? = some made ↔ r.Makes made := by
  simp only [rule?, Option.map_eq_some_iff, BreakerStrategy.ofGrade?_eq_some_iff]
  constructor
  · rintro ⟨strategy, graded, rfl⟩
    exact makes_ruleWith graded
  · intro makes
    exact ⟨made.strategy, makes.strategy, makes.eq_ruleWith.symm⟩

theorem rule?_eq_none_iff : r.rule? = none ↔ 2 < r.grade := by
  rw [rule?, Option.map_eq_none_iff, BreakerStrategy.ofGrade?_eq_none_iff]

theorem rule?_of_ratio (nonzero : r.grade ≠ 0) (ratio : Binary64) :
    rule? { r with slowRatioThreshold := ratio } = r.rule? := by
  refine Option.map_congr fun strategy graded => ?_
  have failed : strategy ≠ .slowRequestRatio := by
    rintro rfl
    exact nonzero (BreakerStrategy.ofGrade?_eq_some_iff.mp graded)
  simp only [ruleWith, failed, if_false]

theorem rule_eq_ok_iff : Record.rule (c := .circuitBreaking) r = .ok made ↔ r.Makes made := by
  rw [← rule?_eq_some_iff, Record.rule]
  cases r.rule? <;> simp

theorem rule_eq_error_iff {reason : Refusal} :
    Record.rule (c := .circuitBreaking) r = .error reason ↔
      2 < r.grade ∧ reason = .unsupportedGrade r.grade := by
  rw [← rule?_eq_none_iff, Record.rule]
  cases r.rule? <;> simp [eq_comm]

end Translation

/-- The grade decides what a record says, and it is refused exactly if there is no such grade. -/
theorem rule_of_grade (r : BreakerRecord) :
    (∀ reason, Record.rule (c := .circuitBreaking) r = .error reason ↔
      2 < r.grade ∧ reason = .unsupportedGrade r.grade) ∧
    (r.grade ≤ 2 → ∃ made, Record.rule (c := .circuitBreaking) r = .ok made) ∧
    (∀ made, Record.rule (c := .circuitBreaking) r = .ok made ↔ r.Makes made) ∧
    (∀ (s : BreakerRecord) (made made' : BreakerRule),
      Record.rule (c := .circuitBreaking) r = .ok made →
      Record.rule (c := .circuitBreaking) s = .ok made' → (made.id = made'.id ↔ r.id = s.id)) ∧
    (r.grade ≠ 0 → ∀ ratio,
      Record.rule (c := .circuitBreaking) { r with slowRatioThreshold := ratio } =
        Record.rule (c := .circuitBreaking) r) := by
  refine ⟨fun _ => rule_eq_error_iff, ?_, fun _ => rule_eq_ok_iff, ?_, ?_⟩
  · intro supported
    cases outcome : Record.rule (c := .circuitBreaking) r with
    | ok made => exact ⟨made, rfl⟩
    | error reason => exact absurd (rule_eq_error_iff.mp outcome).1 (UInt32.not_lt.mpr supported)
  · intro s made made' translated translated'
    have ids := (rule_eq_ok_iff.mp translated).id.eq_iff (rule_eq_ok_iff.mp translated').id
    rw [ids, UInt64.toNat_inj]
  · intro nonzero ratio
    simp only [Record.rule, rule?_of_ratio nonzero ratio]

/-- A break that no longer fits in milliseconds, a bound that is no whole number of them and a
ratio that is no number; then the same record under a grade of failures, and under no grade. -/
theorem rule_of_grade_long_break :
    let ratio : Binary64 := .ofBits 0x7ff8000000000001
    let r : BreakerRecord :=
      ⟨18446744073709551615, "rpc", .ofBits 0x406f5ccccccccccd, 0, 4294968, 5, ratio, 1000⟩
    let made : BreakerRule :=
      ⟨"18446744073709551615", "rpc", .slowRequestRatio, 4294967295, 5, 1000, 250, ratio⟩
    (r.grade ≤ 2 ∧ Record.rule (c := .circuitBreaking) r = .ok made ∧ r.Makes made) ∧
      Record.rule (c := .circuitBreaking) { r with grade := 2, slowRatioThreshold := .zero } =
        Record.rule (c := .circuitBreaking) { r with grade := 2 } ∧
      (Record.rule (c := .circuitBreaking) { r with id := 1 } =
        .ok { made with id := "1" } ∧ (made.id = "1" ↔ r.id = 1)) ∧
      Record.rule (c := .circuitBreaking) { r with grade := 3 } = .error (.unsupportedGrade 3) := by
  intro ratio r made
  have translated : Record.rule (c := .circuitBreaking) r = .ok made := by decide +kernel
  have translated' : Record.rule (c := .circuitBreaking) { r with id := 1 } =
    .ok { made with id := "1" } := by decide +kernel
  obtain ⟨-, -, makes, ids, -⟩ := rule_of_grade r
  obtain ⟨-, -, -, -, ratios⟩ := rule_of_grade { r with grade := 2 }
  obtain ⟨refused, -⟩ := rule_of_grade { r with grade := 3 }
  exact ⟨⟨by decide, translated, (makes made).mp translated⟩, ratios (by decide) .zero,
    ⟨translated', ids _ made _ translated translated'⟩, (refused _).mpr ⟨by decide, rfl⟩⟩

end BreakerRecord
end RuleFeed
