import RuleFeed.Json.Shape
import RuleFeed.Json.Value

/-!
Hot-spot rules: limits on single values of one call argument. An override gives one argument value
a threshold of its own; the value stays in the text form in which it was published.
-/
namespace RuleFeed

inductive HotSpotMetric where
  | concurrency
  | qps
  | other (code : Int32)
  deriving DecidableEq, Repr

namespace HotSpotMetric

def ofCode (code : Int32) : HotSpotMetric :=
  if code = 0 then .concurrency else if code = 1 then .qps else .other code

def code : HotSpotMetric → Int32
  | .concurrency => 0
  | .qps => 1
  | .other code => code

@[simp] theorem code_ofCode (c : Int32) : (ofCode c).code = c := by
  unfold ofCode
  split
  · simp only [code, *]
  · split <;> simp only [code, *]

end HotSpotMetric

inductive HotSpotBehavior where
  | reject
  | throttling
  deriving DecidableEq, Repr

namespace HotSpotBehavior

def standard : HotSpotBehavior := .reject

def tag : HotSpotBehavior → String
  | .reject => "reject"
  | .throttling => "throttling"

def ofTag? (tag : String) : Option HotSpotBehavior :=
  [reject, throttling].find? fun b => b.tag == tag

@[simp] theorem ofTag?_tag (b : HotSpotBehavior) : ofTag? b.tag = some b := by
  cases b <;> decide

end HotSpotBehavior

inductive ParamKind where
  | int
  | bool
  | float64
  | string
  deriving DecidableEq, Repr

namespace ParamKind

def tag : ParamKind → String
  | .int => "int"
  | .bool => "bool"
  | .float64 => "float64"
  | .string => "string"

def ofTag? (tag : String) : Option ParamKind :=
  [int, bool, float64, string].find? fun k => k.tag == tag

@[simp] theorem ofTag?_tag (k : ParamKind) : ofTag? k.tag = some k := by cases k <;> decide

end ParamKind

structure Override where
  kind : ParamKind
  value : String
  threshold : Int64
  deriving DecidableEq, Repr

namespace Override

open Json

def blank : Override := ⟨.int, "", 0⟩

def shape : Shape Override where
  blank := blank
  fields := [
    .required "kind" (Node.tag ParamKind.ofTag?) fun v o => { o with kind := v },
    .required "value" Node.string fun v o => { o with value := v },
    .required "threshold" Node.int64 fun v o => { o with threshold := v }]

def toValue (o : Override) : Value := .object [
  ("kind", .text o.kind.tag),
  ("value", .text o.value),
  ("threshold", .integer o.threshold.toInt)]

end Override

structure HotSpotRule where
  id : String
  resource : String
  metric : HotSpotMetric
  behavior : HotSpotBehavior
  /-- Which argument of the call is limited. -/
  paramIndex : Int32
  threshold : Binary64
  maxQueueingTimeMs : Int64
  burstCount : Int64
  durationSec : Int64
  /-- How many argument values are tracked. -/
  paramsMaxCapacity : Int64
  overrides : List Override
  deriving DecidableEq, Repr

namespace HotSpotRule

open Json

def blank : HotSpotRule := ⟨"", "", .concurrency, .standard, 0, .zero, 0, 0, 0, 0, []⟩

def shape : Shape HotSpotRule where
  blank := blank
  fields := [
    .required "id" Node.string fun v r => { r with id := v },
    .required "resource" Node.string fun v r => { r with resource := v },
    .required "metric_type" Node.int32 fun v r => { r with metric := .ofCode v },
    .required "control_behavior" (Node.tag HotSpotBehavior.ofTag?)
      fun v r => { r with behavior := v },
    .required "param_index" Node.int32 fun v r => { r with paramIndex := v },
    .required "threshold" Node.real fun v r => { r with threshold := v },
    .required "max_queueing_time_ms" Node.int64 fun v r => { r with maxQueueingTimeMs := v },
    .required "burst_count" Node.int64 fun v r => { r with burstCount := v },
    .required "duration_in_sec" Node.int64 fun v r => { r with durationSec := v },
    .required "params_max_capacity" Node.int64 fun v r => { r with paramsMaxCapacity := v },
    .required "specific_items" (Node.listOf Override.shape.read)
      fun v r => { r with overrides := v }]

def value (r : HotSpotRule) : Value := .object [
  ("id", .text r.id),
  ("resource", .text r.resource),
  ("metric_type", .integer r.metric.code.toInt),
  ("control_behavior", .text r.behavior.tag),
  ("param_index", .integer r.paramIndex.toInt),
  ("threshold", .real r.threshold),
  ("max_queueing_time_ms", .integer r.maxQueueingTimeMs.toInt),
  ("burst_count", .integer r.burstCount.toInt),
  ("duration_in_sec", .integer r.durationSec.toInt),
  ("params_max_capacity", .integer r.paramsMaxCapacity.toInt),
  ("specific_items", .list (r.overrides.map Override.toValue))]

def agrees (r s : HotSpotRule) : Bool :=
  r.threshold.agrees s.threshold && decide (r = { s with threshold := r.threshold })

end HotSpotRule
end RuleFeed
