import RuleFeed.Record.Breaker
import RuleFeed.Record.Flow
import RuleFeed.Record.HotSpot
import RuleFeed.Record.System
import RuleFeed.Rule

/-!
Published records of a category and the rules that they stand for. A record that stands for no
rule is refused with a reason; nothing else about a record can be refused here.
-/
namespace RuleFeed

/-- What the console publishes for a category, one record a rule. -/
abbrev Record : Category → Type
  | .flow => FlowRecord
  | .system => SystemRecord
  | .circuitBreaking => BreakerRecord
  | .hotSpot => HotSpotRecord

inductive Refusal where
  | noSystemThreshold
  | unsupportedGrade (grade : UInt32)
  deriving DecidableEq, Repr

def Refusal.message : Refusal → String
  | .noSystemThreshold => "no system metric threshold is set"
  | .unsupportedGrade grade => "unsupported circuit breaking grade " ++ Decimal.write grade.toNat

namespace Record

def shape : (c : Category) → Json.Shape (Record c)
  | .flow => FlowRecord.shape
  | .system => SystemRecord.shape
  | .circuitBreaking => BreakerRecord.shape
  | .hotSpot => HotSpotRecord.shape

def resource : {c : Category} → Record c → String
  | .flow, r => FlowRecord.resource r
  | .system, r => SystemRecord.resource r
  | .circuitBreaking, r => BreakerRecord.resource r
  | .hotSpot, r => HotSpotRecord.resource r

def rule : {c : Category} → Record c → Except Refusal (Rule c)
  | .flow, r => .ok (FlowRecord.rule r)
  | .system, r =>
    if (SystemRecord.rule r).isInvalid then .error .noSystemThreshold
    else .ok (SystemRecord.rule r)
  | .circuitBreaking, r =>
    match BreakerRecord.rule? r with
    | some rule => .ok rule
    | none => .error (.unsupportedGrade (BreakerRecord.grade r))
  | .hotSpot, r => .ok (HotSpotRecord.rule r)

end Record
end RuleFeed
