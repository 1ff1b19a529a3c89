import RuleFeed.Category

/-! The names under which the rule documents of an application are published. -/
namespace RuleFeed.DataId

def start : Category → String
  | .flow => "flow-rule-"
  | .system => "system-rule-"
  | .circuitBreaking => "degrade-rule-"
  | .hotSpot => "param-flow-rule-"

def write (c : Category) (tenantId namespaceName app : String) : String :=
  start c ++ tenantId ++ "-" ++ namespaceName ++ "-" ++ app

def group : String := "ahas-sentinel"

end RuleFeed.DataId
