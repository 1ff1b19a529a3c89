import RuleFeed.Category
import RuleFeed.Rule.Breaker
import RuleFeed.Rule.Flow
import RuleFeed.Rule.HotSpot
import RuleFeed.Rule.System

/-! The rules of a category, with what is common to all four kinds. -/
namespace RuleFeed

def Category.ofDocument (text : String) : Json.Reading Category :=
  (Json.Document.ofString text).read (Json.Node.tag Category.ofTag?)

abbrev Rule : Category → Type
  | .flow => FlowRule
  | .system => SystemRule
  | .circuitBreaking => BreakerRule
  | .hotSpot => HotSpotRule

namespace Rule

instance decidableEq : (c : Category) → DecidableEq (Rule c)
  | .flow => inferInstanceAs (DecidableEq FlowRule)
  | .system => inferInstanceAs (DecidableEq SystemRule)
  | .circuitBreaking => inferInstanceAs (DecidableEq BreakerRule)
  | .hotSpot => inferInstanceAs (DecidableEq HotSpotRule)

def shape : (c : Category) → Json.Shape (Rule c)
  | .flow => FlowRule.shape
  | .system => SystemRule.shape
  | .circuitBreaking => BreakerRule.shape
  | .hotSpot => HotSpotRule.shape

def value : {c : Category} → Rule c → Json.Value
  | .flow, r => FlowRule.value r
  | .system, r => SystemRule.value r
  | .circuitBreaking, r => BreakerRule.value r
  | .hotSpot, r => HotSpotRule.value r

/-- Equality of rules in which floating point fields compare as numbers. -/
def agrees : {c : Category} → Rule c → Rule c → Bool
  | .flow, r, s => FlowRule.agrees r s
  | .system, r, s => SystemRule.agrees r s
  | .circuitBreaking, r, s => BreakerRule.agrees r s
  | .hotSpot, r, s => HotSpotRule.agrees r s

def allAgree {c : Category} : List (Rule c) → List (Rule c) → Bool
  | [], [] => true
  | r :: rs, s :: ss => agrees r s && allAgree rs ss
  | _, _ => false

def ofDocument (c : Category) (text : String) : Json.Reading (Rule c) :=
  (shape c).readDocument text

end Rule
end RuleFeed
