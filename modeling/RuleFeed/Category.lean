/-!
The four kinds of traffic rule. Each has a tag, by which documents name it, and a label, by which
messages do.
-/
namespace RuleFeed

inductive Category where
  | flow
  | system
  | circuitBreaking
  | hotSpot
  deriving DecidableEq, Repr

namespace Category

/-- The categories in the order in which they are subscribed. -/
def all : List Category := [.flow, .system, .circuitBreaking, .hotSpot]

theorem mem_all (c : Category) : c ∈ all := by cases c <;> decide

def tag : Category → String
  | .flow => "flow"
  | .system => "system"
  | .circuitBreaking => "circuit_breaking"
  | .hotSpot => "hot_spot"

def label : Category → String
  | .flow => "flow"
  | .system => "system"
  | .circuitBreaking => "circuit breaking"
  | .hotSpot => "hot-spot parameter flow"

def ofTag? (tag : String) : Option Category := all.find? fun c => c.tag == tag

@[simp] theorem ofTag?_tag (c : Category) : ofTag? c.tag = some c := by cases c <;> decide

end Category
end RuleFeed
