import RuleFeed.Proofs.Json.Tree
import RuleFeed.Proofs.Json.Writing
import RuleFeed.Proofs.Record.Shape
import RuleFeed.Report.Document

/-!
Records as they go over the wire. Each field stands under its name there; a document that writes a
version and records, in whatever spelling, is decoded to them.
-/
namespace RuleFeed

open Json Value

namespace FlowRecord

def wire (r : FlowRecord) : Value := .object [
  ("id", .integer r.id.toNat),
  ("resource", .text r.resource),
  ("limitApp", .text r.limitOrigin),
  ("grade", .integer r.metric.code.toInt),
  ("count", .real r.count),
  ("strategy", .integer r.relation.code.toInt),
  ("controlBehavior", .integer r.behavior.code.toInt),
  ("refResource", .text r.refResource),
  ("warmUpPeriodSec", .integer r.warmUpPeriodSec.toNat),
  ("maxQueueingTimeMs", .integer r.maxQueueingTimeMs.toNat),
  ("clusterMode", .bool r.clusterMode)]

structure Coded (r : FlowRecord) : Prop where
  metric : ∃ code, .ofCode code = r.metric
  relation : ∃ code, .ofCode code = r.relation
  behavior : ∃ code, .ofCode code = r.behavior

theorem readAs_wire {r : FlowRecord} (coded : r.Coded) : r.wire.ReadAs shape.read r := by
  obtain ⟨id, resource, limitOrigin, metric, count, relation, behavior, refResource,
    warmUpPeriodSec, maxQueueingTimeMs, clusterMode⟩ := r
  obtain ⟨⟨metric, rfl⟩, ⟨relation, rfl⟩, behavior, rfl⟩ := coded
  simp only [wire, FlowMetric.code_ofCode, Relation.code_ofCode, FlowBehavior.code_ofCode]
  refine Shape.readAs_of_fills (Record.separate .flow) ?_
  exact
    .nullable (readAs_uint64 _) nofun <|
    .nullable (readAs_text _) nofun <|
    .nullable (readAs_text _) nofun <|
    .nullable (readAs_int32 _) nofun <|
    .nullable (readAs_real _) nofun <|
    .nullable (readAs_int32 _) nofun <|
    .nullable (readAs_int32 _) nofun <|
    .nullable (readAs_text _) nofun <|
    .nullable (readAs_uint32 _) nofun <|
    .nullable (readAs_uint32 _) nofun <|
    .nullable (readAs_bool _) nofun .nil

end FlowRecord

namespace SystemRecord

def wire (r : SystemRecord) : Value := .object [
  ("id", .integer r.id.toNat),
  ("resource", .text r.resource),
  ("highestSystemLoad", .real r.highestSystemLoad),
  ("highestCpuUsage", .real r.highestCpuUsage),
  ("qps", .real r.inboundQps),
  ("avgRt", .integer r.avgRt.toInt),
  ("maxThread", .integer r.maxConcurrency.toInt)]

theorem readAs_wire (r : SystemRecord) : r.wire.ReadAs shape.read r := by
  refine Shape.readAs_of_fills (Record.separate .system) ?_
  exact
    .nullable (readAs_uint64 _) nofun <|
    .nullable (readAs_text _) nofun <|
    .nullable (readAs_real _) nofun <|
    .nullable (readAs_real _) nofun <|
    .nullable (readAs_real _) nofun <|
    .nullable (readAs_int64 _) nofun <|
    .nullable (readAs_int64 _) nofun .nil

end SystemRecord

namespace BreakerRecord

def wire (r : BreakerRecord) : Value := .object [
  ("id", .integer r.id.toNat),
  ("resource", .text r.resource),
  ("count", .real r.threshold),
  ("grade", .integer r.grade.toNat),
  ("timeWindow", .integer r.retryTimeoutSec.toNat),
  ("minRequestAmount", .integer r.minRequestAmount.toNat),
  ("slowRatioThreshold", .real r.slowRatioThreshold),
  ("statIntervalMs", .integer r.statIntervalMs.toNat)]

theorem readAs_wire (r : BreakerRecord) : r.wire.ReadAs shape.read r := by
  refine Shape.readAs_of_fills (Record.separate .circuitBreaking) ?_
  exact
    .nullable (readAs_uint64 _) nofun <|
    .nullable (readAs_text _) nofun <|
    .nullable (readAs_real _) nofun <|
    .nullable (readAs_uint32 _) nofun <|
    .nullable (readAs_uint32 _) nofun <|
    .nullable (readAs_uint64 _) nofun <|
    .nullable (readAs_real _) nofun <|
    .nullable (readAs_uint32 _) nofun .nil

end BreakerRecord

namespace OverrideItem

def wire (i : OverrideItem) : Value := .object [
  ("object", .text i.value),
  ("count", .real i.threshold),
  ("classType", .text i.paramType)]

theorem readAs_wire (i : OverrideItem) : i.wire.ReadAs shape.read i := by
  refine Shape.readAs_of_fills OverrideItem.separate ?_
  exact
    .nullable (readAs_text _) nofun <|
    .nullable (readAs_real _) nofun <|
    .nullable (readAs_text _) nofun .nil

end OverrideItem

namespace HotSpotRecord

def wire (r : HotSpotRecord) : Value := .object [
  ("id", .integer r.id.toNat),
  ("resource", .text r.resource),
  ("grade", .integer r.metric.code.toInt),
  ("count", .real r.threshold),
  ("paramIdx", .integer r.paramIndex.toInt),
  ("durationInSec", .integer r.durationSec.toInt),
  ("controlBehavior", .integer r.behaviorCode.toNat),
  ("maxQueueingTimeMs", .integer r.maxQueueingTimeMs.toInt),
  ("burstCount", .integer r.burstCount.toInt),
  ("paramFlowItemList", .list (r.items.map OverrideItem.wire)),
  ("clusterMode", .bool r.clusterMode)]

def Coded (r : HotSpotRecord) : Prop := ∃ code, .ofCode code = r.metric

theorem readAs_wire {r : HotSpotRecord} (coded : r.Coded) : r.wire.ReadAs shape.read r := by
  obtain ⟨id, resource, metric, threshold, paramIndex, durationSec, behaviorCode,
    maxQueueingTimeMs, burstCount, items, clusterMode⟩ := r
  obtain ⟨metric, rfl⟩ := coded
  simp only [wire, HotSpotMetric.code_ofCode]
  refine Shape.readAs_of_fills (Record.separate .hotSpot) ?_
  exact
    .nullable (readAs_uint64 _) nofun <|
    .nullable (readAs_text _) nofun <|
    .nullable (readAs_int32 _) nofun <|
    .nullable (readAs_real _) nofun <|
    .nullable (readAs_int32 _) nofun <|
    .nullable (readAs_int64 _) nofun <|
    .nullable (readAs_uint32 _) nofun <|
    .nullable (readAs_int64 _) nofun <|
    .nullable (readAs_int64 _) nofun <|
    .nullable (readAs_list fun item _ => OverrideItem.readAs_wire item) nofun <|
    .nullable (readAs_bool _) nofun .nil

end HotSpotRecord

namespace Record

def wire : {c : Category} → Record c → Value
  | .flow, r => FlowRecord.wire r
  | .system, r => SystemRecord.wire r
  | .circuitBreaking, r => BreakerRecord.wire r
  | .hotSpot, r => HotSpotRecord.wire r

def Coded : {c : Category} → Record c → Prop
  | .flow, r => FlowRecord.Coded r
  | .hotSpot, r => HotSpotRecord.Coded r
  | _, _ => True

theorem readAs_wire {c : Category} {r : Record c} (coded : Coded r) :
    (wire r).ReadAs (shape c).read r :=
  match c, r, coded with
  | .flow, _, coded => FlowRecord.readAs_wire coded
  | .system, r, _ => SystemRecord.readAs_wire r
  | .circuitBreaking, r, _ => BreakerRecord.readAs_wire r
  | .hotSpot, _, coded => HotSpotRecord.readAs_wire coded

end Record

namespace Envelope

variable {c : Category}

def wire (e : Envelope c) : Value := .object [
  ("Version", .text e.version),
  ("Data", .list (e.records.map Record.wire))]

theorem readAs_wire {e : Envelope c} (coded : ∀ r ∈ e.records, Record.Coded r) :
    e.wire.ReadAs (shape c).read e := by
  have records (r : Record c) (mem : r ∈ e.records) := Record.readAs_wire (coded r mem)
  refine Shape.readAs_of_fills (separate c) ?_
  exact
    .cons ((Json.Field.takes_nullable (readAs_text _) nofun).withAlias _) <|
    .cons ((Json.Field.takes_nullable (readAs_list records) nofun).withAlias _) .nil

/-- A document that writes a version and records is decoded to them and nothing else, and reported
on as they are. -/
theorem decode_of_writes {c : Category} (e : Envelope c)
    (coded : ∀ r ∈ e.records, Record.Coded r) (p : Padded Spelling)
    (written : p.value.Writes e.wire) :
    decode c p.document = .ok e ∧
      Report.ofDocument c p.document = .ok (Report.ofRecords e.records) := by
  have decoded : decode c p.document = .ok e := by
    rw [decode, ofDocument, Shape.readDocument, Document.read_document,
      readAs_wire coded p.value written]
    rfl
  refine ⟨decoded, ?_⟩
  rw [Report.ofDocument, decoded]
  rfl

/-- A system document with members out of order, an escape and numbers in several forms. -/
def swapped : Padded Spelling :=
  .tight (.object
    [Member.plain "Data" (.list
      [.tight (.object
        [Member.plain "resource" (.text ⟨[.unit (.ofNat 0x41)]⟩),
          Member.plain "id" (.number (.ofDigit 7)),
          Member.plain "highestSystemLoad" (.number (.ofDigit 0)),
          Member.plain "highestCpuUsage" (.number { NumberSpelling.ofDigit 0 with
            fraction := some (.ofDigit 0) }),
          Member.plain "qps" (.number { NumberSpelling.ofDigit 0 with
            negative := true
            exponent := some ⟨true, .plus, .ofDigit 2⟩ }),
          Member.plain "avgRt" (.number { NumberSpelling.ofDigit 1 with negative := true }),
          Member.plain "maxThread" (.number (.ofDigit 0))]
        .empty)]
      .empty),
    Member.plain "Version" (.text (.ofString "1"))]
    .empty)

def swappedRecord : SystemRecord where
  id := 7
  resource := "A"
  highestSystemLoad := .ofInt 0
  highestCpuUsage := .zero
  inboundQps := { Binary64.zero with negative := true }
  avgRt := -1
  maxConcurrency := 0

theorem writes_swapped : swapped.value.Writes (wire (c := .system) ⟨"1", [swappedRecord]⟩) := by
  have version := TextSpelling.spells_ofString "1"
  refine .object (.swap _ _ _) (.cons (Member.named_plain _ _) (.text version)
    (.cons (Member.named_plain _ _) (.list (.cons ?_ .nil)) .nil))
  refine .object (.swap _ _ _) ?_
  have a : TextSpelling.Spells ⟨[.unit (.ofNat 0x41)]⟩ "A" :=
    ⟨[.unit 'A' _ rfl], rfl, by decide⟩
  exact .cons (Member.named_plain _ _) (.integer ⟨rfl, rfl, rfl, rfl⟩)
    (.cons (Member.named_plain _ _) (.text a)
    (.cons (Member.named_plain _ _) (.real (by decide +kernel))
    (.cons (Member.named_plain _ _) (.real (by decide +kernel))
    (.cons (Member.named_plain _ _) (.real (by decide +kernel))
    (.cons (Member.named_plain _ _) (.integer ⟨rfl, rfl, rfl, rfl⟩)
    (.cons (Member.named_plain _ _) (.integer ⟨rfl, rfl, rfl, rfl⟩) .nil))))))

theorem decode_of_writes_swapped :
    decode .system swapped.document = .ok ⟨"1", [swappedRecord]⟩ :=
  (decode_of_writes (c := .system) ⟨"1", [swappedRecord]⟩ (fun _ _ => trivial) swapped
    writes_swapped).1

end Envelope
end RuleFeed
