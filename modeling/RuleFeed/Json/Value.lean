import RuleFeed.Binary64

/-! Values to be written, free of faults and of any choice of spelling. -/
namespace RuleFeed.Json

inductive Value where
  | null
  | bool (b : Bool)
  | integer (z : Int)
  | real (x : Binary64)
  | text (s : String)
  | list (items : List Value)
  | object (members : List (String × Value))

end RuleFeed.Json
