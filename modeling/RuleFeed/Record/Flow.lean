import RuleFeed.Rule.Flow

/-! Flow rules as the console publishes them. Every absent field is zero. -/
namespace RuleFeed

structure FlowRecord where
  id : UInt64
  resource : String
  limitOrigin : String
  metric : FlowMetric
  count : Binary64
  relation : Relation
  behavior : FlowBehavior
  refResource : String
  warmUpPeriodSec : UInt32
  maxQueueingTimeMs : UInt32
  clusterMode : Bool
  deriving DecidableEq, Repr

namespace FlowRecord

open Json

def blank : FlowRecord :=
  ⟨0, "", "", .concurrency, .zero, .currentResource, .reject, "", 0, 0, false⟩

def shape : Shape FlowRecord where
  blank := blank
  fields := [
    .nullable "id" 0 Node.uint64 fun v r => { r with id := v },
    .nullable "resource" "" Node.string fun v r => { r with resource := v },
    .nullable "limitApp" "" Node.string fun v r => { r with limitOrigin := v },
    .nullable "grade" 0 Node.int32 fun v r => { r with metric := .ofCode v },
    .nullable "count" .zero Node.real fun v r => { r with count := v },
    .nullable "strategy" 0 Node.int32 fun v r => { r with relation := .ofCode v },
    .nullable "controlBehavior" 0 Node.int32 fun v r => { r with behavior := .ofCode v },
    .nullable "refResource" "" Node.string fun v r => { r with refResource := v },
    .nullable "warmUpPeriodSec" 0 Node.uint32 fun v r => { r with warmUpPeriodSec := v },
    .nullable "maxQueueingTimeMs" 0 Node.uint32 fun v r => { r with maxQueueingTimeMs := v },
    .nullable "clusterMode" false Node.bool fun v r => { r with clusterMode := v }]

def rule (r : FlowRecord) : FlowRule where
  id := r.id
  resource := r.resource
  limitOrigin := r.limitOrigin
  metric := r.metric
  count := r.count
  relation := r.relation
  behavior := r.behavior
  refResource := r.refResource
  warmUpPeriodSec := r.warmUpPeriodSec
  maxQueueingTimeMs := r.maxQueueingTimeMs
  clusterMode := r.clusterMode

end FlowRecord
end RuleFeed
