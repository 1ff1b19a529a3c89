import RuleFeed.Json.Shape
import RuleFeed.Json.Value

/-! System protection rules: one metric of the whole process and the value that triggers. -/
namespace RuleFeed

inductive SystemMetric where
  | load
  | avgRt
  | concurrency
  | inboundQps
  | cpuUsage
  | other (code : UInt32)
  deriving DecidableEq, Repr

namespace SystemMetric

def ofCode (code : UInt32) : SystemMetric :=
  if code = 0 then .load
  else if code = 1 then .avgRt
  else if code = 2 then .concurrency
  else if code = 3 then .inboundQps
  else if code = 4 then .cpuUsage
  else .other code

def code : SystemMetric → UInt32
  | .load => 0
  | .avgRt => 1
  | .concurrency => 2
  | .inboundQps => 3
  | .cpuUsage => 4
  | .other code => code

@[simp] theorem code_ofCode (c : UInt32) : (ofCode c).code = c := by
  unfold ofCode
  repeat' split
  all_goals simp only [code, *]

/-- The mark of a rule for which no threshold is set. -/
def invalid : SystemMetric := .other 404

/-- Load and processor usage adapt the limit to the observed traffic. -/
def isAdaptive : SystemMetric → Bool
  | .load => true
  | .cpuUsage => true
  | _ => false

theorem isAdaptive_iff (m : SystemMetric) : m.isAdaptive = true ↔ m = .load ∨ m = .cpuUsage := by
  cases m <;> simp [isAdaptive]

end SystemMetric

inductive AdaptiveStrategy where
  | noAdaptive
  | bbr
  deriving DecidableEq, Repr

namespace AdaptiveStrategy

def standard : AdaptiveStrategy := .noAdaptive

def tag : AdaptiveStrategy → String
  | .noAdaptive => "no_adaptive"
  | .bbr => "bbr"

def ofTag? (tag : String) : Option AdaptiveStrategy :=
  [noAdaptive, bbr].find? fun s => s.tag == tag

@[simp] theorem ofTag?_tag (s : AdaptiveStrategy) : ofTag? s.tag = some s := by
  cases s <;> decide

end AdaptiveStrategy

structure SystemRule where
  id : UInt64
  metric : SystemMetric
  triggerCount : Binary64
  strategy : AdaptiveStrategy
  deriving DecidableEq, Repr

namespace SystemRule

open Json

def isInvalid (r : SystemRule) : Bool := r.metric == .invalid

def blank : SystemRule := ⟨0, .load, .zero, .standard⟩

def shape : Shape SystemRule where
  blank := blank
  fields := [
    .required "id" Node.uint64 fun v r => { r with id := v },
    .required "metric_type" Node.uint32 fun v r => { r with metric := .ofCode v },
    .required "trigger_count" Node.real fun v r => { r with triggerCount := v },
    .required "strategy" (Node.tag AdaptiveStrategy.ofTag?) fun v r => { r with strategy := v }]

def value (r : SystemRule) : Value := .object [
  ("id", .integer r.id.toNat),
  ("metric_type", .integer r.metric.code.toNat),
  ("trigger_count", .real r.triggerCount),
  ("strategy", .text r.strategy.tag)]

def agrees (r s : SystemRule) : Bool :=
  r.triggerCount.agrees s.triggerCount && decide (r = { s with triggerCount := r.triggerCount })

end SystemRule
end RuleFeed
