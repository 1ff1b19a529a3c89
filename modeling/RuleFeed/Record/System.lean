import RuleFeed.Binary64.Rounding
import RuleFeed.Rule.System

/-!
System rules as the console publishes them: up to five thresholds in one record, of which one
becomes the rule. A threshold counts as set if it is at least zero.
-/
namespace RuleFeed

structure SystemRecord where
  id : UInt64
  resource : String
  highestSystemLoad : Binary64
  highestCpuUsage : Binary64
  inboundQps : Binary64
  avgRt : Int64
  maxConcurrency : Int64
  deriving DecidableEq, Repr

namespace SystemRecord

open Json

def blank : SystemRecord := ⟨0, "", .zero, .zero, .zero, 0, 0⟩

def shape : Shape SystemRecord where
  blank := blank
  fields := [
    .nullable "id" 0 Node.uint64 fun v r => { r with id := v },
    .nullable "resource" "" Node.string fun v r => { r with resource := v },
    .nullable "highestSystemLoad" .zero Node.real fun v r => { r with highestSystemLoad := v },
    .nullable "highestCpuUsage" .zero Node.real fun v r => { r with highestCpuUsage := v },
    .nullable "qps" .zero Node.real fun v r => { r with inboundQps := v },
    .nullable "avgRt" 0 Node.int64 fun v r => { r with avgRt := v },
    .nullable "maxThread" 0 Node.int64 fun v r => { r with maxConcurrency := v }]

/-- The trigger count of a rule for which no threshold is set. -/
def unset : Binary64 := .ofInt (-1)

/-- The metric of the first threshold that is set, and that threshold. -/
def metric (r : SystemRecord) : SystemMetric × Binary64 :=
  if 0 ≤ r.avgRt then (.avgRt, .ofInt r.avgRt.toInt)
  else if 0 ≤ r.maxConcurrency then (.concurrency, .ofInt r.maxConcurrency.toInt)
  else if r.inboundQps.isNonneg then (.inboundQps, r.inboundQps)
  else if r.highestCpuUsage.isNonneg then (.cpuUsage, r.highestCpuUsage)
  else if r.highestSystemLoad.isNonneg then (.load, r.highestSystemLoad)
  else (.invalid, unset)

def rule (r : SystemRecord) : SystemRule where
  id := r.id
  metric := r.metric.1
  triggerCount := r.metric.2
  strategy := if r.metric.1.isAdaptive then .bbr else .noAdaptive

end SystemRecord
end RuleFeed
