import Mathlib.Algebra.Group.Nat.Defs
import RuleFeed.Proofs.Json.Kept
import RuleFeed.Proofs.Record.Shape
import RuleFeed.Proofs.Text.Decimal
import RuleFeed.Report.Document

/-!
What holds of every rule that a published document can bring. The numbers of a record that is read
are values of literals, hence finite, and its enumerations are normal; from there each translation
is followed once. A rule that is accepted is sound, whatever the text of the document was.
-/
namespace RuleFeed

open Json

/-- A code that has a meaning does not stay a bare code. -/
def FlowMetric.IsNormal (m : FlowMetric) : Prop := ∀ code, m = .other code → code ∉ [0, 1]

def Relation.IsNormal (r : Relation) : Prop := ∀ code, r = .other code → code ∉ [0, 1]

def FlowBehavior.IsNormal (b : FlowBehavior) : Prop :=
  ∀ code, b = .other code → code ∉ [0, 1, 2, 3]

def HotSpotMetric.IsNormal (m : HotSpotMetric) : Prop := ∀ code, m = .other code → code ∉ [0, 1]

theorem FlowMetric.isNormal_ofCode (code : Int32) : (ofCode code).IsNormal := by
  intro other same
  grind [ofCode]

theorem Relation.isNormal_ofCode (code : Int32) : (ofCode code).IsNormal := by
  intro other same
  grind [ofCode]

theorem HotSpotMetric.isNormal_ofCode (code : Int32) : (ofCode code).IsNormal := by
  intro other same
  grind [ofCode]

theorem FlowBehavior.isNormal_ofCode (code : Int32) : (ofCode code).IsNormal := by
  intro other same
  grind [ofCode]

def FlowRecord.Regular (r : FlowRecord) : Prop :=
  Legible r.count ∧ r.metric.IsNormal ∧ r.relation.IsNormal ∧ r.behavior.IsNormal

def SystemRecord.Regular (r : SystemRecord) : Prop :=
  Legible r.highestSystemLoad ∧ Legible r.highestCpuUsage ∧ Legible r.inboundQps

def BreakerRecord.Regular (r : BreakerRecord) : Prop :=
  Legible r.threshold ∧ Legible r.slowRatioThreshold

def HotSpotRecord.Regular (r : HotSpotRecord) : Prop := Legible r.threshold ∧ r.metric.IsNormal

/-- Its numbers are values of literals and its enumerations normal. -/
def Record.Regular : {c : Category} → Record c → Prop
  | .flow, r => FlowRecord.Regular r
  | .system, r => SystemRecord.Regular r
  | .circuitBreaking, r => BreakerRecord.Regular r
  | .hotSpot, r => HotSpotRecord.Regular r

section Keeps

variable {α : Type} {P : α → Prop} {name : String}

private theorem keeps_real {put : Binary64 → α → α}
    (kept : ∀ x a, Legible x → P a → P (put x a)) :
    (Json.Field.nullable name .zero Node.real put).Keeps P :=
  Json.Field.keeps_of_good Legible .zero (fun _ _ => Node.legible_of_real) kept

end Keeps

theorem Record.keeps_regular (c : Category) : (Record.shape c).Keeps Record.Regular where
  blank := by
    cases c
    · refine ⟨.zero, ?_, ?_, ?_⟩ <;> exact fun _ => nofun
    · exact ⟨.zero, .zero, .zero⟩
    · exact ⟨.zero, .zero⟩
    · exact ⟨.zero, fun _ => nofun⟩
  fields := by
    cases c <;>
      simp only [shape, FlowRecord.shape, SystemRecord.shape, BreakerRecord.shape,
        HotSpotRecord.shape, List.forall_mem_cons, List.not_mem_nil, false_imp_iff, implies_true,
        and_true]
    case flow =>
      refine ⟨?_, ?_, ?_, ?_, ?_, ?_, ?_, ?_, ?_, ?_, ?_⟩
      case refine_5 => exact keeps_real fun _ _ legible h => ⟨legible, h.2⟩
      case refine_4 =>
        exact Json.Field.keeps_of_put fun code _ h =>
          ⟨h.1, FlowMetric.isNormal_ofCode code, h.2.2⟩
      case refine_6 =>
        exact Json.Field.keeps_of_put fun code _ h =>
          ⟨h.1, h.2.1, Relation.isNormal_ofCode code, h.2.2.2⟩
      case refine_7 =>
        exact Json.Field.keeps_of_put fun code _ h =>
          ⟨h.1, h.2.1, h.2.2.1, FlowBehavior.isNormal_ofCode code⟩
      all_goals exact Json.Field.keeps_of_put fun _ _ h => h
    case system =>
      refine ⟨?_, ?_, ?_, ?_, ?_, ?_, ?_⟩
      case refine_3 => exact keeps_real fun _ _ legible h => ⟨legible, h.2⟩
      case refine_4 => exact keeps_real fun _ _ legible h => ⟨h.1, legible, h.2.2⟩
      case refine_5 => exact keeps_real fun _ _ legible h => ⟨h.1, h.2.1, legible⟩
      all_goals exact Json.Field.keeps_of_put fun _ _ h => h
    case circuitBreaking =>
      refine ⟨?_, ?_, ?_, ?_, ?_, ?_, ?_, ?_⟩
      case refine_3 => exact keeps_real fun _ _ legible h => ⟨legible, h.2⟩
      case refine_7 => exact keeps_real fun _ _ legible h => ⟨h.1, legible⟩
      all_goals exact Json.Field.keeps_of_put fun _ _ h => h
    case hotSpot =>
      refine ⟨?_, ?_, ?_, ?_, ?_, ?_, ?_, ?_, ?_, ?_, ?_⟩
      case refine_4 => exact keeps_real fun _ _ legible h => ⟨legible, h.2⟩
      case refine_3 =>
        exact Json.Field.keeps_of_put fun code _ h => ⟨h.1, HotSpotMetric.isNormal_ofCode code⟩
      all_goals exact Json.Field.keeps_of_put fun _ _ h => h

theorem Envelope.keeps_regular (c : Category) :
    (shape c).Keeps fun e => ∀ r ∈ e.records, r.Regular where
  blank := nofun
  fields := by
    simp only [fields_shape, versionField, dataField, List.forall_mem_cons, List.not_mem_nil,
      false_imp_iff, implies_true, and_true]
    refine ⟨Json.Field.Keeps.withAlias ?_ "version", Json.Field.Keeps.withAlias ?_ "data"⟩
    · exact Json.Field.keeps_of_put fun _ _ h => h
    · refine Json.Field.keeps_of_good (fun rs => ∀ r ∈ rs, Record.Regular r) nofun ?_ ?_
      · exact fun _ _ => Node.forall_of_listOf fun _ _ => (Record.keeps_regular c).read
      · exact fun _ _ good _ => good

structure FlowRule.Sound (r : FlowRule) : Prop where
  count_finite : r.count.isFinite
  metric_normal : r.metric.IsNormal
  relation_normal : r.relation.IsNormal
  behavior_normal : r.behavior.IsNormal

structure SystemRule.Sound (r : SystemRule) : Prop where
  metric_real : r.metric ∈ [.load, .avgRt, .concurrency, .inboundQps, .cpuUsage]
  not_invalid : r.isInvalid = false
  triggerCount_finite : r.triggerCount.isFinite
  triggerCount_nonneg : r.triggerCount.isNonneg
  bbr_iff : r.strategy = .bbr ↔ r.metric = .load ∨ r.metric = .cpuUsage

structure BreakerRule.Sound (r : BreakerRule) : Prop where
  id_canonical : ∃ n : UInt64, Decimal.Canonical r.id n.toNat
  maxAllowedRt_zero : r.strategy ≠ .slowRequestRatio → r.maxAllowedRtMs = 0
  retryTimeout_seconds : 1000 ∣ r.retryTimeoutMs.toNat ∨ r.retryTimeoutMs.toNat = 2 ^ 32 - 1
  threshold_finite : r.threshold.isFinite

structure HotSpotRule.Sound (r : HotSpotRule) : Prop where
  capacity : r.paramsMaxCapacity = 500
  override_values : ∀ o ∈ r.overrides, o.value ≠ ""
  metric_normal : r.metric.IsNormal
  threshold_finite : r.threshold.isFinite

def Rule.Sound : {c : Category} → Rule c → Prop
  | .flow, r => FlowRule.Sound r
  | .system, r => SystemRule.Sound r
  | .circuitBreaking, r => BreakerRule.Sound r
  | .hotSpot, r => HotSpotRule.Sound r

/-- The one floating point number of a rule. -/
def Rule.number : {c : Category} → Rule c → Binary64
  | .flow, r => FlowRule.count r
  | .system, r => SystemRule.triggerCount r
  | .circuitBreaking, r => BreakerRule.threshold r
  | .hotSpot, r => HotSpotRule.threshold r

theorem FlowRecord.sound_rule {r : FlowRecord} (regular : r.Regular) : r.rule.Sound where
  count_finite := regular.1.isFinite
  metric_normal := regular.2.1
  relation_normal := regular.2.2.1
  behavior_normal := regular.2.2.2

namespace SystemRecord

theorem legible_metric {r : SystemRecord} (regular : r.Regular) : Legible r.metric.2 := by
  obtain ⟨load, cpu, qps⟩ := regular
  have word (n : Int64) : Legible (.ofInt n.toInt) := by
    have low := n.le_toInt
    have high := n.toInt_lt
    exact .ofInt (by omega) (by omega)
  unfold metric
  repeat' split
  · exact word _
  · exact word _
  · exact qps
  · exact cpu
  · exact load
  · exact .ofInt (by decide) (by decide)

theorem metric_cases (r : SystemRecord) :
    r.metric.1 = .invalid ∨
      r.metric.1 ∈ [.load, .avgRt, .concurrency, .inboundQps, .cpuUsage] ∧
        r.metric.2.isNonneg := by
  have word (n : Int64) (nonneg : 0 ≤ n) : (Binary64.ofInt n.toInt).isNonneg := by
    have low : 0 ≤ n.toInt := Int64.le_iff_toInt_le.mp nonneg
    have high := n.toInt_lt
    exact Binary64.isNonneg_ofInt low (by omega)
  unfold metric
  split
  case isTrue set => exact .inr ⟨by simp, word _ set⟩
  split
  case isTrue set => exact .inr ⟨by simp, word _ set⟩
  split
  case isTrue set => exact .inr ⟨by simp, set⟩
  split
  case isTrue set => exact .inr ⟨by simp, set⟩
  split
  case isTrue set => exact .inr ⟨by simp, set⟩
  exact .inl rfl

theorem sound_rule {r : SystemRecord} (regular : r.Regular) (set : r.rule.isInvalid = false) :
    r.rule.Sound := by
  rcases r.metric_cases with invalid | ⟨real, nonneg⟩
  · simp [rule, SystemRule.isInvalid, invalid] at set
  · refine ⟨real, set, (legible_metric regular).isFinite, nonneg, ?_⟩
    rw [← SystemMetric.isAdaptive_iff, rule]
    split <;> simp [*]

theorem eq_rule_of_ok {r : SystemRecord} {rule : SystemRule}
    (made : Record.rule (c := .system) r = .ok rule) :
    r.rule.isInvalid = false ∧ r.rule = rule := by
  simp only [Record.rule] at made
  split at made
  case isTrue => cases made
  case isFalse set => exact ⟨Bool.eq_false_iff.mpr set, Except.ok.inj made⟩

end SystemRecord

namespace BreakerRecord

theorem legible_ruleWith {r : BreakerRecord} (regular : r.Regular) (strategy : BreakerStrategy) :
    Legible (r.ruleWith strategy).threshold := by
  rw [ruleWith]
  split
  · exact regular.2
  · exact regular.1

theorem sound_ruleWith {r : BreakerRecord} (regular : r.Regular) (strategy : BreakerStrategy) :
    (r.ruleWith strategy).Sound where
  id_canonical := ⟨r.id, Decimal.canonical_write _⟩
  maxAllowedRt_zero other := if_neg other
  retryTimeout_seconds := by
    rw [ruleWith, toNat_millisOfSec]
    omega
  threshold_finite := (legible_ruleWith regular strategy).isFinite

theorem exists_ruleWith_of_ok {r : BreakerRecord} {rule : BreakerRule}
    (made : Record.rule (c := .circuitBreaking) r = .ok rule) :
    ∃ strategy, r.ruleWith strategy = rule := by
  simp only [Record.rule] at made
  split at made
  case h_1 found =>
    cases made
    obtain ⟨strategy, -, same⟩ := Option.map_eq_some_iff.mp found
    exact ⟨strategy, same⟩
  case h_2 => cases made

end BreakerRecord

theorem HotSpotRecord.sound_rule {r : HotSpotRecord} (regular : r.Regular) : r.rule.Sound where
  capacity := rfl
  override_values := by
    intro o mem
    obtain ⟨item, -, made⟩ := List.mem_filterMap.mp mem
    unfold OverrideItem.override? at made
    split at made
    case isTrue => cases made
    case isFalse value =>
      cases made
      exact value
  metric_normal := regular.2
  threshold_finite := regular.1.isFinite

namespace Record

variable {c : Category} {r : Record c} {rule : Rule c}

theorem sound_of_rule (regular : r.Regular) (made : r.rule = .ok rule) : rule.Sound := by
  cases c with
  | flow =>
    cases made
    exact FlowRecord.sound_rule regular
  | system =>
    obtain ⟨set, rfl⟩ := SystemRecord.eq_rule_of_ok made
    exact SystemRecord.sound_rule regular set
  | circuitBreaking =>
    obtain ⟨strategy, rfl⟩ := BreakerRecord.exists_ruleWith_of_ok made
    exact BreakerRecord.sound_ruleWith regular strategy
  | hotSpot =>
    cases made
    exact HotSpotRecord.sound_rule regular

theorem legible_of_rule (regular : r.Regular) (made : r.rule = .ok rule) : Legible rule.number := by
  cases c with
  | flow =>
    cases made
    exact regular.1
  | system =>
    obtain ⟨-, rfl⟩ := SystemRecord.eq_rule_of_ok made
    exact SystemRecord.legible_metric regular
  | circuitBreaking =>
    obtain ⟨strategy, rfl⟩ := BreakerRecord.exists_ruleWith_of_ok made
    exact BreakerRecord.legible_ruleWith regular strategy
  | hotSpot =>
    cases made
    exact regular.1

end Record

namespace Report

variable {c : Category} {payload : String} {report : Report c}

/-- Every rule that is accepted from a document is what a record stands for that was read. -/
theorem exists_record (decoded : ofDocument c payload = .ok report) :
    ∀ rule ∈ report.accepted, ∃ r : Record c, r.Regular ∧ r.rule = .ok rule := by
  intro rule mem
  obtain ⟨e, read, rfl⟩ := ofDocument_eq_ok_iff.mp decoded
  rw [ofRecords, accepted_ofRecordsFrom] at mem
  obtain ⟨r, mem, made⟩ := List.mem_filterMap.mp mem
  have regular := (Envelope.keeps_regular c).readDocument read r mem
  exact ⟨r, regular, (toOption_eq_some_iff _ _).mp made⟩

theorem sound_ofDocument (decoded : ofDocument c payload = .ok report) :
    ∀ rule ∈ report.accepted, Rule.Sound rule := by
  intro rule mem
  obtain ⟨r, regular, made⟩ := exists_record decoded rule mem
  exact Record.sound_of_rule regular made

end Report
end RuleFeed
