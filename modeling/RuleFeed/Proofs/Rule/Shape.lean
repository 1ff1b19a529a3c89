import RuleFeed.Proofs.Json.Members
import RuleFeed.Rule

/-!
The shapes of rules. In a rule of each category and in an override every field is mandatory and
has its own part of the rule and a name of its own.
-/
namespace RuleFeed

open Json

theorem Rule.separate (c : Category) : (Rule.shape c).Separate where
  distinct := by cases c <;> decide
  commute := by
    cases c <;>
      simp only [shape, FlowRule.shape, SystemRule.shape, BreakerRule.shape, HotSpotRule.shape,
        List.pairwise_cons, List.forall_mem_cons, List.not_mem_nil, false_imp_iff, implies_true,
        and_true, List.Pairwise.nil]
    all_goals
      repeat' apply And.intro
      all_goals exact Json.Field.commutes_of_update rfl rfl fun _ _ _ => rfl

theorem Override.separate : Override.shape.Separate where
  distinct := by decide
  commute := by
    simp only [shape, List.pairwise_cons, List.forall_mem_cons, List.not_mem_nil, false_imp_iff,
      implies_true, and_true, List.Pairwise.nil]
    refine ⟨⟨?_, ?_⟩, ?_⟩
    all_goals exact Json.Field.commutes_of_update rfl rfl fun _ _ _ => rfl

end RuleFeed
