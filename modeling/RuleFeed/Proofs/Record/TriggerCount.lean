import RuleFeed.Proofs.Binary64.Nearest
import RuleFeed.Record.System

/-!
Integer thresholds of a system record as trigger counts. The response time and the concurrency are
published as integers of 64 bits, and a trigger count is a binary64 value, so beyond 2^53 most of
them are rounded. The order is kept: a larger threshold never has a smaller count.
-/
namespace RuleFeed.SystemRecord

/-- The rule of the record is made from an integer: the response time, or the concurrency where the
response time is not set. -/
inductive TakesInteger (r : SystemRecord) : SystemMetric → Int64 → Prop
  | avgRt (set : 0 ≤ r.avgRt) : TakesInteger r .avgRt r.avgRt
  | concurrency (unset : r.avgRt < 0) (set : 0 ≤ r.maxConcurrency) :
      TakesInteger r .concurrency r.maxConcurrency

section Integer

variable {r : SystemRecord} {metric : SystemMetric} {n : Int64}

theorem TakesInteger.nonneg (takes : r.TakesInteger metric n) : 0 ≤ n.toInt := by
  cases takes with
  | avgRt set => exact Int64.le_iff_toInt_le.mp set
  | concurrency _ set => exact Int64.le_iff_toInt_le.mp set

theorem TakesInteger.metric_eq (takes : r.TakesInteger metric n) :
    r.metric = (metric, .ofInt n.toInt) := by
  cases takes with
  | avgRt set => rw [SystemRecord.metric, if_pos set]
  | concurrency unset set =>
    rw [SystemRecord.metric, if_neg (Int64.not_le.mpr unset), if_pos set]

theorem TakesInteger.triggerCount_eq (takes : r.TakesInteger metric n) :
    r.rule.triggerCount = .ofInt n.toInt := by
  rw [rule, takes.metric_eq]

theorem TakesInteger.isNearest (takes : r.TakesInteger metric n) :
    Binary64.IsNearest n.toInt r.rule.triggerCount := by
  rw [takes.triggerCount_eq]
  exact Binary64.isNearest_ofInt takes.nonneg (n.toInt_lt.trans (by decide))

end Integer

/-- The count of an integer is the nearest value, without a sign. It is the integer itself up to
2^53, it is a power of two from the middle of the last step below that power on, and it never falls
as the integer grows. -/
theorem triggerCount_of_integer {r : SystemRecord} {metric : SystemMetric} {n : Int64}
    (takes : r.TakesInteger metric n) :
    r.metric = (metric, r.rule.triggerCount) ∧
    Binary64.IsNearest n.toInt r.rule.triggerCount ∧
    (r.rule.triggerCount.isFinite = true ∧ r.rule.triggerCount.negative = false ∧
      0 ≤ r.rule.triggerCount.toRat) ∧
    (n.toInt ≤ 2 ^ 53 → r.rule.triggerCount.toRat = n.toInt) ∧
    (∀ k, 54 + k < 64 → n.toInt ≤ 2 ^ (54 + k) →
      (r.rule.triggerCount.toRat = 2 ^ (54 + k) ↔ 2 ^ (54 + k) - 2 ^ k ≤ n.toInt)) ∧
    ∀ s metric' m, TakesInteger s metric' m → n ≤ m →
      r.rule.triggerCount.toRat ≤ s.rule.triggerCount.toRat := by
  have count := takes.triggerCount_eq
  have nearest := takes.isNearest
  have sign : r.rule.triggerCount.negative = false := by
    rw [count]
    exact decide_eq_false (not_lt.mpr takes.nonneg)
  refine ⟨by rw [count, takes.metric_eq], nearest,
    ⟨nearest.finite, sign, Binary64.toRat_nonneg sign⟩, ?_, ?_, ?_⟩
  · intro small
    rw [count, Binary64.toRat_ofInt takes.nonneg small]
  · intro k high below
    rw [count, Binary64.toRat_ofInt_eq_two_pow_iff high takes.nonneg below]
  · intro s metric' m takes' le
    exact nearest.mono takes'.isNearest (by exact_mod_cast Int64.le_iff_toInt_le.mp le)

/-- The middle between 2^63 and the value below it is counted as 2^63, as is the last integer. -/
theorem triggerCount_of_integer_carried :
    let exact : SystemRecord := ⟨1, "host", .zero, .zero, .zero, 9007199254740992, -1⟩
    let middle : SystemRecord := ⟨2, "host", .zero, .zero, .zero, 9223372036854775296, 0⟩
    let last : SystemRecord := ⟨3, "host", .zero, .zero, .zero, -1, 9223372036854775807⟩
    (exact.TakesInteger .avgRt 9007199254740992 ∧
      exact.rule.triggerCount.toRat = 9007199254740992) ∧
    (middle.TakesInteger .avgRt 9223372036854775296 ∧
      middle.metric = (.avgRt, .ofBits 0x43e0000000000000) ∧
      Binary64.IsNearest 9223372036854775296 middle.rule.triggerCount ∧
      middle.rule.triggerCount.toRat = 2 ^ 63) ∧
    last.TakesInteger .concurrency 9223372036854775807 ∧
      last.metric = (.concurrency, .ofBits 0x43e0000000000000) ∧
      middle.rule.triggerCount.toRat ≤ last.rule.triggerCount.toRat := by
  intro exact middle last
  have takes : exact.TakesInteger .avgRt 9007199254740992 := .avgRt (by decide)
  have takes' : middle.TakesInteger .avgRt 9223372036854775296 := .avgRt (by decide)
  have takes'' : last.TakesInteger .concurrency 9223372036854775807 :=
    .concurrency (by decide) (by decide)
  obtain ⟨-, -, -, whole, -⟩ := triggerCount_of_integer takes
  obtain ⟨metric, nearest, -, -, carries, mono⟩ := triggerCount_of_integer takes'
  obtain ⟨metric', -⟩ := triggerCount_of_integer takes''
  have count : middle.rule.triggerCount = .ofBits 0x43e0000000000000 := by decide +kernel
  have count' : last.rule.triggerCount = .ofBits 0x43e0000000000000 := by decide +kernel
  exact ⟨⟨takes, whole (by decide)⟩,
    ⟨takes', count ▸ metric, nearest, (carries 9 (by decide) (by decide)).mpr (by decide)⟩,
    takes'', count' ▸ metric', mono last _ _ takes'' (by decide)⟩

end RuleFeed.SystemRecord
