import RuleFeed.Json.Shape
import RuleFeed.Json.Value

/-!
Flow rules. Their enumerations are open: a code without a meaning here is kept, so that it is the
engine that decides what becomes of it, and every code survives reading and writing.
-/
namespace RuleFeed

inductive FlowMetric where
  | concurrency
  | qps
  | other (code : Int32)
  deriving DecidableEq, Repr

inductive Relation where
  | currentResource
  | associatedResource
  | other (code : Int32)
  deriving DecidableEq, Repr

inductive FlowBehavior where
  | reject
  | warmUp
  | throttling
  | warmUpThrottling
  | other (code : Int32)
  deriving DecidableEq, Repr

namespace FlowMetric

def ofCode (code : Int32) : FlowMetric :=
  if code = 0 then .concurrency else if code = 1 then .qps else .other code

def code : FlowMetric → Int32
  | .concurrency => 0
  | .qps => 1
  | .other code => code

@[simp] theorem code_ofCode (c : Int32) : (ofCode c).code = c := by
  unfold ofCode
  split
  · simp only [code, *]
  · split <;> simp only [code, *]

end FlowMetric

namespace Relation

def ofCode (code : Int32) : Relation :=
  if code = 0 then .currentResource else if code = 1 then .associatedResource else .other code

def code : Relation → Int32
  | .currentResource => 0
  | .associatedResource => 1
  | .other code => code

@[simp] theorem code_ofCode (c : Int32) : (ofCode c).code = c := by
  unfold ofCode
  split
  · simp only [code, *]
  · split <;> simp only [code, *]

end Relation

namespace FlowBehavior

def ofCode (code : Int32) : FlowBehavior :=
  if code = 0 then .reject
  else if code = 1 then .warmUp
  else if code = 2 then .throttling
  else if code = 3 then .warmUpThrottling
  else .other code

def code : FlowBehavior → Int32
  | .reject => 0
  | .warmUp => 1
  | .throttling => 2
  | .warmUpThrottling => 3
  | .other code => code

@[simp] theorem code_ofCode (c : Int32) : (ofCode c).code = c := by
  unfold ofCode
  repeat' split
  all_goals simp only [code, *]

end FlowBehavior

structure FlowRule where
  id : UInt64
  resource : String
  limitOrigin : String
  metric : FlowMetric
  count : Binary64
  relation : Relation
  behavior : FlowBehavior
  refResource : String
  warmUpPeriodSec : UInt32
  maxQueueingTimeMs : UInt32
  clusterMode : Bool
  deriving DecidableEq, Repr

namespace FlowRule

open Json

def blank : FlowRule :=
  ⟨0, "", "", .concurrency, .zero, .currentResource, .reject, "", 0, 0, false⟩

def shape : Shape FlowRule where
  blank := blank
  fields := [
    .required "id" Node.uint64 fun v r => { r with id := v },
    .required "resource" Node.string fun v r => { r with resource := v },
    .required "limit_origin" Node.string fun v r => { r with limitOrigin := v },
    .required "metric_type" Node.int32 fun v r => { r with metric := .ofCode v },
    .required "count" Node.real fun v r => { r with count := v },
    .required "relation_strategy" Node.int32 fun v r => { r with relation := .ofCode v },
    .required "control_behavior" Node.int32 fun v r => { r with behavior := .ofCode v },
    .required "ref_resource" Node.string fun v r => { r with refResource := v },
    .required "warm_up_period_sec" Node.uint32 fun v r => { r with warmUpPeriodSec := v },
    .required "max_queueing_time_ms" Node.uint32 fun v r => { r with maxQueueingTimeMs := v },
    .required "cluster_mode" Node.bool fun v r => { r with clusterMode := v }]

def value (r : FlowRule) : Value := .object [
  ("id", .integer r.id.toNat),
  ("resource", .text r.resource),
  ("limit_origin", .text r.limitOrigin),
  ("metric_type", .integer r.metric.code.toInt),
  ("count", .real r.count),
  ("relation_strategy", .integer r.relation.code.toInt),
  ("control_behavior", .integer r.behavior.code.toInt),
  ("ref_resource", .text r.refResource),
  ("warm_up_period_sec", .integer r.warmUpPeriodSec.toNat),
  ("max_queueing_time_ms", .integer r.maxQueueingTimeMs.toNat),
  ("cluster_mode", .bool r.clusterMode)]

def agrees (r s : FlowRule) : Bool :=
  r.count.agrees s.count && decide (r = { s with count := r.count })

end FlowRule
end RuleFeed
