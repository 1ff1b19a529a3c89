import RuleFeed.Binary64.Truncation
import RuleFeed.Rule.HotSpot
import RuleFeed.Text.Decimal

/-!
Hot-spot rules as the console publishes them. Items without a value say nothing and are left out
of the rule; thresholds of items are cut to whole numbers.
-/
namespace RuleFeed

structure OverrideItem where
  value : String
  threshold : Binary64
  paramType : String
  deriving DecidableEq, Repr

def lowerAscii (s : String) : String := String.ofList (s.toList.map Char.toLower)

/-- The kind that a published type tag names; a tag that is none of the six names a string. -/
def ParamKind.ofTypeTag (tag : String) : ParamKind :=
  if ["int", "long"].contains (lowerAscii tag) then .int
  else if ["bool", "boolean"].contains (lowerAscii tag) then .bool
  else if ["double", "float"].contains (lowerAscii tag) then .float64
  else .string

namespace OverrideItem

open Json

def blank : OverrideItem := ⟨"", .zero, ""⟩

def shape : Shape OverrideItem where
  blank := blank
  fields := [
    .nullable "object" "" Node.string fun v i => { i with value := v },
    .nullable "count" .zero Node.real fun v i => { i with threshold := v },
    .nullable "classType" "" Node.string fun v i => { i with paramType := v }]

def override? (i : OverrideItem) : Option Override :=
  if i.value = "" then none
  else some ⟨.ofTypeTag i.paramType, i.value, i.threshold.toInt64⟩

end OverrideItem

/-- The behaviour of a published code: two is throttling, all else rejects. -/
def HotSpotBehavior.ofCode (code : UInt32) : HotSpotBehavior :=
  if code = 2 then .throttling else .reject

structure HotSpotRecord where
  id : UInt64
  resource : String
  metric : HotSpotMetric
  threshold : Binary64
  paramIndex : Int32
  durationSec : Int64
  behaviorCode : UInt32
  maxQueueingTimeMs : Int64
  burstCount : Int64
  items : List OverrideItem
  clusterMode : Bool
  deriving DecidableEq, Repr

namespace HotSpotRecord

open Json

def blank : HotSpotRecord := ⟨0, "", .concurrency, .zero, 0, 0, 0, 0, 0, [], false⟩

def shape : Shape HotSpotRecord where
  blank := blank
  fields := [
    .nullable "id" 0 Node.uint64 fun v r => { r with id := v },
    .nullable "resource" "" Node.string fun v r => { r with resource := v },
    .nullable "grade" 0 Node.int32 fun v r => { r with metric := .ofCode v },
    .nullable "count" .zero Node.real fun v r => { r with threshold := v },
    .nullable "paramIdx" 0 Node.int32 fun v r => { r with paramIndex := v },
    .nullable "durationInSec" 0 Node.int64 fun v r => { r with durationSec := v },
    .nullable "controlBehavior" 0 Node.uint32 fun v r => { r with behaviorCode := v },
    .nullable "maxQueueingTimeMs" 0 Node.int64 fun v r => { r with maxQueueingTimeMs := v },
    .nullable "burstCount" 0 Node.int64 fun v r => { r with burstCount := v },
    .nullable "paramFlowItemList" [] (Node.listOf OverrideItem.shape.read)
      fun v r => { r with items := v },
    .nullable "clusterMode" false Node.bool fun v r => { r with clusterMode := v }]

def capacity : Int64 := 500

def rule (r : HotSpotRecord) : HotSpotRule where
  id := Decimal.write r.id.toNat
  resource := r.resource
  metric := r.metric
  behavior := .ofCode r.behaviorCode
  paramIndex := r.paramIndex
  threshold := r.threshold
  maxQueueingTimeMs := r.maxQueueingTimeMs
  burstCount := r.burstCount
  durationSec := r.durationSec
  paramsMaxCapacity := capacity
  overrides := r.items.filterMap OverrideItem.override?

end HotSpotRecord
end RuleFeed
