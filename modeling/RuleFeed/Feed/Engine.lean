import RuleFeed.Rule

/-!
The engine that rules are fed to: a rule set for each category, always replaced as a whole, and
the categories of the replacements so far. An engine may refuse a category, and then keeps what
it has.
-/
namespace RuleFeed

structure RuleSets where
  flow : List FlowRule
  system : List SystemRule
  circuitBreaking : List BreakerRule
  hotSpot : List HotSpotRule
  deriving DecidableEq, Repr

namespace RuleSets

def empty : RuleSets := ⟨[], [], [], []⟩

def get (s : RuleSets) : (c : Category) → List (Rule c)
  | .flow => s.flow
  | .system => s.system
  | .circuitBreaking => s.circuitBreaking
  | .hotSpot => s.hotSpot

def set (s : RuleSets) : (c : Category) → List (Rule c) → RuleSets
  | .flow, rules => { s with flow := rules }
  | .system, rules => { s with system := rules }
  | .circuitBreaking, rules => { s with circuitBreaking := rules }
  | .hotSpot, rules => { s with hotSpot := rules }

@[simp] theorem get_empty (c : Category) : empty.get c = [] := by cases c <;> rfl

@[simp] theorem get_set (s : RuleSets) (c : Category) (rules : List (Rule c)) :
    (s.set c rules).get c = rules := by cases c <;> rfl

theorem get_set_of_ne (s : RuleSets) {c d : Category} (rules : List (Rule c)) (h : d ≠ c) :
    (s.set c rules).get d = s.get d := by
  cases c <;> cases d <;> first | rfl | exact absurd rfl h

end RuleSets

structure EngineError where
  category : Category
  reason : String
  deriving DecidableEq, Repr

def EngineError.message (e : EngineError) : String :=
  "rule engine rejected " ++ e.category.label ++ " rules: " ++ e.reason

structure Engine where
  sets : RuleSets
  replacements : List Category
  rejecting : List Category
  deriving DecidableEq, Repr

namespace Engine

def empty : Engine := ⟨.empty, [], []⟩

def reject (e : Engine) (c : Category) : Engine := { e with rejecting := c :: e.rejecting }

def rejects (e : Engine) (c : Category) : Bool := e.rejecting.contains c

/-- Replaces the rule set of a category. The answer says whether that changed it, floating point
fields compared as numbers; the new set is taken in either case. -/
def replace (e : Engine) (c : Category) (rules : List (Rule c)) :
    Except EngineError Bool × Engine :=
  if e.rejects c then (.error ⟨c, "rejected by test engine"⟩, e)
  else (.ok (!Rule.allAgree (e.sets.get c) rules),
    { e with sets := e.sets.set c rules, replacements := e.replacements ++ [c] })

end Engine
end RuleFeed
