import RuleFeed.Proofs.Binary64.Exact
import RuleFeed.Record

/-!
Which threshold of a system record becomes its rule. The thresholds stand in an order of their own,
and the first that is at least zero decides the whole rule but for the id; none behind it and no
other field of the record matters. A record in which no threshold is set has a rule with a mark
that no threshold can bring, and that rule is refused.
-/
namespace RuleFeed

inductive Threshold where
  | integer (n : Int64)
  | real (x : Binary64)

namespace Threshold

/-- At least zero as a number, which a negative zero is and a NaN is not. -/
def IsSet : Threshold → Prop
  | .integer n => 0 ≤ n.toInt
  | .real x => x.isNaN = false ∧ 0 ≤ x.signedUnits

instance : DecidablePred IsSet
  | .integer n => inferInstanceAs (Decidable (0 ≤ n.toInt))
  | .real x => inferInstanceAs (Decidable (x.isNaN = false ∧ 0 ≤ x.signedUnits))

def count : Threshold → Binary64
  | .integer n => .ofInt n.toInt
  | .real x => x

theorem isSet_integer (n : Int64) : (integer n).IsSet ↔ 0 ≤ n := by
  rw [IsSet, Int64.le_iff_toInt_le, Int64.toInt_zero]

theorem isSet_real (x : Binary64) : (real x).IsSet ↔ x.isNonneg = true :=
  (Binary64.isNonneg_iff x).symm

end Threshold

namespace SystemRecord

/-- The thresholds in the order of their priority, each with its metric. -/
def thresholds (r : SystemRecord) : List (SystemMetric × Threshold) := [
  (.avgRt, .integer r.avgRt), (.concurrency, .integer r.maxConcurrency),
  (.inboundQps, .real r.inboundQps), (.cpuUsage, .real r.highestCpuUsage),
  (.load, .real r.highestSystemLoad)]

theorem ne_invalid_of_mem_thresholds {r : SystemRecord} {metric : SystemMetric}
    {threshold : Threshold} (mem : (metric, threshold) ∈ r.thresholds) : metric ≠ .invalid := by
  rintro rfl
  simp [thresholds, SystemMetric.invalid] at mem

def ruleOf (id : UInt64) (metric : SystemMetric) (threshold : Threshold) : SystemRule where
  id := id
  metric := metric
  triggerCount := threshold.count
  strategy := if metric = .cpuUsage ∨ metric = .load then .bbr else .noAdaptive

/-- The mark: the metric 404 with the trigger count -1. -/
def marked (id : UInt64) : SystemRule where
  id := id
  metric := .other 404
  triggerCount := .ofBits 0xbff0000000000000
  strategy := .noAdaptive

section Selection

variable {r : SystemRecord} {metric : SystemMetric} {threshold : Threshold}
  {before after : List (SystemMetric × Threshold)}

theorem metric_eq_find? (r : SystemRecord) :
    r.metric = match r.thresholds.find? fun t => t.2.IsSet with
      | some t => (t.1, t.2.count)
      | none => (.invalid, unset) := by
  simp only [SystemRecord.metric, thresholds, List.find?_cons, List.find?_nil,
    Threshold.isSet_integer, Threshold.isSet_real, Threshold.count]
  by_cases avgRt : 0 ≤ r.avgRt
  · simp only [avgRt, if_true, decide_true]
  by_cases concurrency : 0 ≤ r.maxConcurrency
  · simp only [avgRt, concurrency, if_true, if_false, decide_true, decide_false]
  simp only [avgRt, concurrency, if_false, decide_false]
  cases r.inboundQps.isNonneg <;> cases r.highestCpuUsage.isNonneg <;>
    cases r.highestSystemLoad.isNonneg <;> rfl

theorem find?_thresholds (split : r.thresholds = before ++ (metric, threshold) :: after)
    (unset : ∀ t ∈ before, ¬ t.2.IsSet) (set : threshold.IsSet) :
    (r.thresholds.find? fun t => t.2.IsSet) = some (metric, threshold) := by
  refine List.find?_eq_some_iff_append.mpr ⟨decide_eq_true set, before, after, split, ?_⟩
  intro t mem
  rw [decide_eq_false (unset t mem), Bool.not_false]

theorem rule_of_find? (found : (r.thresholds.find? fun t => t.2.IsSet) = some (metric, threshold)) :
    r.rule = ruleOf r.id metric threshold := by
  simp only [rule, metric_eq_find?, found, ruleOf, SystemMetric.isAdaptive_iff, or_comm]

theorem rule_of_none (none : ∀ t ∈ r.thresholds, ¬ t.2.IsSet) : r.rule = marked r.id := by
  have nothing : (r.thresholds.find? fun t => t.2.IsSet) = Option.none :=
    List.find?_eq_none.mpr fun t mem => by simpa using none t mem
  have count : unset = .ofBits 0xbff0000000000000 := by decide +kernel
  simp only [rule, metric_eq_find?, nothing, count]
  rfl

/-- A rule bears the mark exactly if no threshold of its record is set. -/
theorem metric_rule_eq_invalid_iff (r : SystemRecord) :
    r.rule.metric = .invalid ↔ ∀ t ∈ r.thresholds, ¬ t.2.IsSet := by
  refine ⟨fun invalid t mem set => ?_, fun none => by rw [rule_of_none none]; rfl⟩
  cases found : r.thresholds.find? fun t => t.2.IsSet with
  | none => exact List.find?_eq_none.mp found t mem (decide_eq_true set)
  | some first =>
    rw [rule_of_find? found] at invalid
    exact ne_invalid_of_mem_thresholds (List.mem_of_find?_eq_some found) invalid

theorem translated_of_find?
    (found : (r.thresholds.find? fun t => t.2.IsSet) = some (metric, threshold)) :
    Record.rule (c := .system) r = .ok (ruleOf r.id metric threshold) := by
  have real : metric ≠ .invalid :=
    ne_invalid_of_mem_thresholds (List.mem_of_find?_eq_some found)
  simp only [Record.rule, rule_of_find? found, SystemRule.isInvalid, ruleOf,
    beq_eq_false_iff_ne.mpr real, Bool.false_eq_true, if_false]

theorem translated_of_none (none : ∀ t ∈ r.thresholds, ¬ t.2.IsSet) :
    Record.rule (c := .system) r = .error .noSystemThreshold := by
  rw [Record.rule, rule_of_none none]
  rfl

end Selection

/-- The first threshold that is set makes the rule, whatever stands behind it. -/
theorem rule_of_first_threshold (r : SystemRecord) :
    ((∃ made, Record.rule (c := .system) r = .ok made) ↔ ∃ t ∈ r.thresholds, t.2.IsSet) ∧
    (∀ before metric threshold after,
      r.thresholds = before ++ (metric, threshold) :: after →
      (∀ t ∈ before, ¬ t.2.IsSet) → threshold.IsSet →
        Record.rule (c := .system) r = .ok (ruleOf r.id metric threshold) ∧
        ∀ s : SystemRecord, s.id = r.id → before ++ [(metric, threshold)] <+: s.thresholds →
          s.rule = r.rule ∧ Record.rule (c := .system) s = Record.rule (c := .system) r) ∧
    ((∀ t ∈ r.thresholds, ¬ t.2.IsSet) →
      r.rule = marked r.id ∧ Record.rule (c := .system) r = .error .noSystemThreshold) ∧
    (r.rule.metric = .other 404 → ∀ t ∈ r.thresholds, ¬ t.2.IsSet) := by
  refine ⟨⟨?_, ?_⟩, ?_, fun none => ⟨rule_of_none none, translated_of_none none⟩,
    (metric_rule_eq_invalid_iff r).mp⟩
  · rintro ⟨made, translated⟩
    refine Decidable.byContradiction fun none => ?_
    rw [translated_of_none fun t mem set => none ⟨t, mem, set⟩] at translated
    cases translated
  · rintro ⟨t, mem, set⟩
    cases found : r.thresholds.find? fun t => t.2.IsSet with
    | none => exact absurd (decide_eq_true set) (List.find?_eq_none.mp found t mem)
    | some first => exact ⟨_, translated_of_find? found⟩
  · intro before metric threshold after split unset set
    have found := find?_thresholds split unset set
    refine ⟨translated_of_find? found, ?_⟩
    rintro s id ⟨behind, leads⟩
    rw [List.append_assoc, List.singleton_append] at leads
    -- The same threshold is the first of the other record, so both rules are made from it.
    have same := find?_thresholds leads.symm unset set
    rw [rule_of_find? same, rule_of_find? found, translated_of_find? same,
      translated_of_find? found, id]
    exact ⟨rfl, rfl⟩

/-- A NaN is passed over, and a negative zero is taken before a larger load. -/
theorem rule_of_first_threshold_negative_zero :
    let nan : Binary64 := .ofBits 0x7ff8000000000000
    let negativeZero : Binary64 := .ofBits 0x8000000000000000
    let r : SystemRecord := ⟨7, "host", .ofInt 3, negativeZero, nan, -1, -9223372036854775808⟩
    Record.rule (c := .system) r = .ok ⟨7, .cpuUsage, negativeZero, .bbr⟩ ∧
      (SystemRecord.rule { r with resource := "", highestSystemLoad := nan }) = r.rule := by
  intro nan negativeZero r
  obtain ⟨made, others⟩ := (rule_of_first_threshold r).2.1
    [(.avgRt, .integer r.avgRt), (.concurrency, .integer r.maxConcurrency),
      (.inboundQps, .real nan)] .cpuUsage (.real negativeZero) [(.load, .real (.ofInt 3))] rfl
    (by decide +kernel) (by decide +kernel)
  exact ⟨made, (others { r with resource := "", highestSystemLoad := nan } rfl ⟨_, rfl⟩).1⟩

end SystemRecord
end RuleFeed
