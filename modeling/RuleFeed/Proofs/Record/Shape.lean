import RuleFeed.Proofs.Json.Members
import RuleFeed.Record.Envelope

/-!
The shapes of published documents. In an envelope, in a record of each category and in an override
item, every field has its own part of the record and names of its own, and `null` is the value
that an absent field has.
-/
namespace RuleFeed

open Json

theorem Record.separate (c : Category) : (Record.shape c).Separate where
  distinct := by cases c <;> decide
  commute := by
    cases c <;>
      simp only [shape, FlowRecord.shape, SystemRecord.shape, BreakerRecord.shape,
        HotSpotRecord.shape, List.pairwise_cons, List.forall_mem_cons, List.not_mem_nil,
        false_imp_iff, implies_true, and_true, List.Pairwise.nil]
    all_goals
      repeat' apply And.intro
      all_goals exact Json.Field.commutes_optional fun _ _ _ => rfl

theorem Record.forgiving (c : Category) : (Record.shape c).Forgiving := by
  cases c <;>
    simp only [Shape.Forgiving, shape, FlowRecord.shape, SystemRecord.shape, BreakerRecord.shape,
      HotSpotRecord.shape, List.forall_mem_cons, List.not_mem_nil, false_imp_iff, implies_true,
      and_true]
  all_goals
    repeat' apply And.intro
    all_goals exact Json.Field.forgives_nullable rfl

theorem OverrideItem.separate : OverrideItem.shape.Separate where
  distinct := by decide
  commute := by
    simp only [shape, List.pairwise_cons, List.forall_mem_cons, List.not_mem_nil, false_imp_iff,
      implies_true, and_true, List.Pairwise.nil]
    refine ⟨⟨?_, ?_⟩, ?_⟩
    all_goals exact Json.Field.commutes_optional fun _ _ _ => rfl

theorem OverrideItem.forgiving : OverrideItem.shape.Forgiving := by
  simp only [Shape.Forgiving, shape, List.forall_mem_cons, List.not_mem_nil, false_imp_iff,
    implies_true, and_true]
  refine ⟨?_, ?_, ?_⟩
  all_goals exact Json.Field.forgives_nullable rfl

def HotSpotRecord.itemsField : Json.Field HotSpotRecord :=
  .nullable "paramFlowItemList" [] (Node.listOf OverrideItem.shape.read)
    fun v r => { r with items := v }

theorem HotSpotRecord.field?_items : shape.field? "paramFlowItemList" = some itemsField := rfl

namespace Envelope

variable (c : Category)

def versionField : Json.Field (Envelope c) :=
  (Json.Field.nullable "Version" "" Node.string
    fun v e => { e with version := v }).withAlias "version"

def dataField : Json.Field (Envelope c) :=
  (Json.Field.nullable "Data" [] (Node.listOf (Record.shape c).read)
    fun v e => { e with records := v }).withAlias "data"

theorem field?_version : (shape c).field? "Version" = some (versionField c) := rfl

theorem field?_data {key : String} (h : key ∈ ["Data", "data"]) :
    (shape c).field? key = some (dataField c) := by
  simp only [List.mem_cons, List.not_mem_nil, or_false] at h
  rcases h with rfl | rfl <;> rfl

theorem update_versionField (t : Text) :
    (versionField c).update (.text t) = t.decode.map fun v e => { e with version := v } := rfl

theorem update_dataField (items : List Node) :
    (dataField c).update (.list items .complete) =
      (Node.listItems (Record.shape c).read items).map fun v e => { e with records := v } := by
  rw [← Node.listOf_complete]
  rfl

theorem fields_shape : (shape c).fields = [versionField c, dataField c] := rfl

theorem separate : (shape c).Separate where
  distinct := show ["Version", "version", "Data", "data"].Nodup by decide
  commute := by
    refine List.pairwise_pair.mpr (Json.Field.Commutes.withAlias ?_ "version" "data")
    exact Json.Field.commutes_optional fun _ _ _ => rfl

theorem forgiving : (shape c).Forgiving := by
  simp only [Shape.Forgiving, fields_shape, List.forall_mem_cons, List.not_mem_nil, false_imp_iff,
    implies_true, and_true]
  refine ⟨?_, ?_⟩
  all_goals exact (Json.Field.forgives_nullable rfl).withAlias _

end Envelope
end RuleFeed
