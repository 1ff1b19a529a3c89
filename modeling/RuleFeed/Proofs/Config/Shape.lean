import RuleFeed.Config
import RuleFeed.Proofs.Json.Members

/-!
The shapes of a configuration. In an agent's configuration, in the settings of its feed and in an
endpoint every field has its own part and a name of its own.
-/
namespace RuleFeed

open Json

theorem FeedSettings.separate : FeedSettings.shape.Separate where
  distinct := by decide
  commute := by
    simp only [shape, List.pairwise_cons, List.forall_mem_cons, List.not_mem_nil, false_imp_iff,
      implies_true, and_true, List.Pairwise.nil]
    repeat' apply And.intro
    all_goals exact Json.Field.commutes_of_update rfl rfl fun _ _ _ => rfl

theorem EndpointOverride.separate : EndpointOverride.shape.Separate where
  distinct := by decide
  commute := by
    simp only [shape, List.pairwise_cons, List.forall_mem_cons, List.not_mem_nil, false_imp_iff,
      implies_true, and_true, List.Pairwise.nil]
    refine ⟨⟨?_, ?_⟩, ?_⟩
    all_goals exact Json.Field.commutes_of_update rfl rfl fun _ _ _ => rfl

theorem AgentConfig.separate : AgentConfig.shape.Separate where
  distinct := by decide
  commute := by
    simp only [shape, List.pairwise_cons, List.forall_mem_cons, List.not_mem_nil, false_imp_iff,
      implies_true, and_true, List.Pairwise.nil]
    repeat' apply And.intro
    all_goals exact Json.Field.commutes_of_update rfl rfl fun _ _ _ => rfl

end RuleFeed
