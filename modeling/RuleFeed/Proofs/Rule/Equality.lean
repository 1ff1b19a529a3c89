import Mathlib.Data.List.Forall2
import RuleFeed.Proofs.Binary64.Rational
import RuleFeed.Proofs.Rule.Sound

/-!
Rules that compare equal. A rule of each category has one number in floating point, which compares
as a number, and everything else in it compares bit for bit. A sound rule compares equal to itself,
since its number is no NaN; two that compare equal may still differ in the sign of a zero.
-/
namespace RuleFeed.Rule

variable {c : Category}

def withNumber (x : Binary64) : {c : Category} → Rule c → Rule c
  | .flow, r => { (r : FlowRule) with count := x }
  | .system, r => { (r : SystemRule) with triggerCount := x }
  | .circuitBreaking, r => { (r : BreakerRule) with threshold := x }
  | .hotSpot, r => { (r : HotSpotRule) with threshold := x }

/-- The numbers are the same one, and nothing else differs. -/
def SameRule (r s : Rule c) : Prop :=
  r.number.SameNumber s.number ∧ r.withNumber .zero = s.withNumber .zero

theorem agrees_iff (r s : Rule c) : r.agrees s = true ↔ r.SameRule s := by
  cases c
  all_goals
    cases r
    cases s
    simp [agrees, SameRule, number, withNumber, FlowRule.agrees, SystemRule.agrees,
      BreakerRule.agrees, HotSpotRule.agrees, Binary64.agrees_iff]

theorem allAgree_iff (rs ss : List (Rule c)) :
    allAgree rs ss = true ↔ List.Forall₂ SameRule rs ss := by
  induction rs generalizing ss with
  | nil => cases ss <;> simp [allAgree]
  | cons r rs ih => cases ss <;> simp [allAgree, agrees_iff, ih]

theorem isFinite_number_of_sound {r : Rule c} (sound : r.Sound) : r.number.isFinite = true := by
  cases c with
  | flow => exact FlowRule.Sound.count_finite sound
  | system => exact SystemRule.Sound.triggerCount_finite sound
  | circuitBreaking => exact BreakerRule.Sound.threshold_finite sound
  | hotSpot => exact HotSpotRule.Sound.threshold_finite sound

theorem SameRule.refl_of_sound {r : Rule c} (sound : r.Sound) : r.SameRule r := by
  have number := Binary64.isNaN_eq_false_of_isFinite (isFinite_number_of_sound sound)
  exact ⟨⟨number, number, rfl⟩, rfl⟩

theorem allAgree_self_of_sound {rs : List (Rule c)} (sound : ∀ r ∈ rs, Rule.Sound r) :
    allAgree rs rs = true :=
  (allAgree_iff rs rs).mpr (List.forall₂_same.mpr fun r mem => .refl_of_sound (sound r mem))

end RuleFeed.Rule
