import RuleFeed.Proofs.Config.Shape
import RuleFeed.Proofs.Json.Positional
import RuleFeed.Proofs.Record.Shape
import RuleFeed.Proofs.Rule.Shape

/-!
The two forms of everything that a document can describe as a record. The values of the fields may
stand in a list, in the order of the fields, or in an object under their names. The two forms say
the same; where the list ends before the fields do, the object leaves the last fields out.
-/
namespace RuleFeed

open Json

inductive Schema where
  | envelope (c : Category)
  | record (c : Category)
  | overrideItem
  | rule (c : Category)
  | override
  | feedSettings
  | agentConfig
  | endpointOverride

namespace Schema

abbrev Data : Schema → Type
  | envelope c => Envelope c
  | record c => Record c
  | overrideItem => OverrideItem
  | rule c => Rule c
  | override => Override
  | feedSettings => FeedSettings
  | agentConfig => AgentConfig
  | endpointOverride => EndpointOverride

def shape : (k : Schema) → Shape k.Data
  | envelope c => Envelope.shape c
  | record c => Record.shape c
  | overrideItem => OverrideItem.shape
  | rule c => Rule.shape c
  | override => Override.shape
  | feedSettings => FeedSettings.shape
  | agentConfig => AgentConfig.shape
  | endpointOverride => EndpointOverride.shape

theorem separate (k : Schema) : k.shape.Separate := by
  cases k with
  | envelope c => exact Envelope.separate c
  | record c => exact Record.separate c
  | overrideItem => exact OverrideItem.separate
  | rule c => exact Rule.separate c
  | override => exact Override.separate
  | feedSettings => exact FeedSettings.separate
  | agentConfig => exact AgentConfig.separate
  | endpointOverride => exact EndpointOverride.separate

/-- A list of values is read as an object that gives them to the first fields, wherever its
members stand; such objects exist for every list that is not too long, and a longer list is
refused. -/
theorem list_reads_as_object (k : Schema) (p : Padded Spelling) (items : List (Padded Spelling))
    (gap : Gap) (list : p.value = .list items gap) :
    (∀ (q : Padded Spelling) (members ordered : List Member) (gap' : Gap),
      q.value = .object members gap' → members.Perm ordered →
      Gives k.shape.fields items ordered →
      ∀ a, k.shape.readDocument p.document = .ok a ↔ k.shape.readDocument q.document = .ok a) ∧
    (items.length ≤ k.shape.fields.length → ∃ members, Gives k.shape.fields items members) ∧
    (k.shape.fields.length < items.length → ∃ f, k.shape.readDocument p.document = .error f) :=
  ⟨fun _ _ _ _ object order given => k.separate.readDocument_list_iff list object order given,
    Gives.exists_of_length_le _ items, Shape.readDocument_of_surplus list⟩

theorem list_reads_as_object_endpoint :
    endpointOverride.shape.readDocument "[\"test\",\"plain\"]" = .ok ⟨"test", "plain", ""⟩ ∧
    ∃ f, endpointOverride.shape.readDocument "[\"test\",\"plain\",null,true]" = .error f := by
  let items : List (Padded Spelling) :=
    [.tight (.text (.ofString "test")), .tight (.text (.ofString "plain"))]
  have given : Gives endpointOverride.shape.fields items
      [.plain "key" (.text (.ofString "test")), .plain "insecure" (.text (.ofString "plain"))] :=
    .cons (Member.named_plain _ _) List.mem_cons_self rfl
      (.cons (Member.named_plain _ _) List.mem_cons_self rfl .nil)
  have read := (list_reads_as_object endpointOverride (.tight (.list items .empty)) items .empty
    rfl).1 (.tight (.object [Member.plain "insecure" (.text (.ofString "plain")),
      Member.plain "key" (.text (.ofString "test"))] .empty)) _ _ .empty rfl (.swap _ _ _) given
  have object : endpointOverride.shape.readDocument
      "\x7b\"insecure\":\"plain\",\"key\":\"test\"\x7d" = .ok ⟨"test", "plain", ""⟩ :=
    (toOption_eq_some_iff (EndpointOverride.shape.readDocument _) _).mp (by decide +kernel)
  have surplus := (list_reads_as_object endpointOverride
    (.tight (.list (items ++ [.tight (.word .null), .tight (.word .true)]) .empty)) _ .empty
    rfl).2.2 (by decide)
  exact ⟨(read _).mpr object, surplus⟩

end Schema
end RuleFeed
