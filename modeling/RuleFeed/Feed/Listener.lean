import RuleFeed.Feed.Engine
import RuleFeed.Report.Document

/-!
What a change of a document does to an engine. The document is read as a whole first; only
the rules of a document that decodes reach the engine, all of them at once.
-/
namespace RuleFeed

inductive Outcome where
  | applied (accepted dropped : Nat) (updated : Bool)
  | decodeFailed
  | engineRejected
  deriving DecidableEq, Repr

namespace Engine

def takeReport (e : Engine) (c : Category) (r : Report c) : Outcome × Engine :=
  match e.replace c r.accepted with
  | (.ok updated, e) => (.applied r.accepted.length r.dropped.length updated, e)
  | (.error _, e) => (.engineRejected, e)

def apply (e : Engine) (c : Category) (payload : String) : Outcome × Engine :=
  match Report.ofDocument c payload with
  | .error _ => (.decodeFailed, e)
  | .ok report => e.takeReport c report

/-- Applies a new document; a failure leaves the engine as it was and is not passed on. -/
def onChange (e : Engine) (c : Category) (payload : String) : Engine := (e.apply c payload).2

end Engine
end RuleFeed
