import RuleFeed.Feed.Listener

/-!
A session with a config service: who watches which document. A watch is kept in the order of the
subscriptions; a published document reaches every watch of its data id in that order.
-/
namespace RuleFeed

structure SessionConfig where
  namespaceId : String
  endpoint : String
  timeoutMs : UInt64
  listenIntervalMs : UInt64
  deriving DecidableEq, Repr

inductive TransportError where
  | unavailable (endpoint source : String)
  | rejected (reason : String)
  deriving DecidableEq, Repr

def TransportError.message : TransportError → String
  | .unavailable endpoint source => "config service unavailable at " ++ endpoint ++ ": " ++ source
  | .rejected reason => "config service rejected the request: " ++ reason

structure Watch where
  group : String
  dataId : String
  category : Category
  deriving DecidableEq, Repr

structure FeedSession where
  watches : List Watch
  /-- Data ids to which no subscription is granted. -/
  refused : List String
  deriving DecidableEq, Repr

namespace FeedSession

def empty : FeedSession := ⟨[], []⟩

def refuse (s : FeedSession) (dataId : String) : FeedSession :=
  { s with refused := dataId :: s.refused }

def dataIds (s : FeedSession) : List String := s.watches.map Watch.dataId

def subscribe (s : FeedSession) (w : Watch) : Except TransportError Unit × FeedSession :=
  if s.refused.contains w.dataId then
    (.error (.rejected ("subscription to " ++ w.dataId ++ " refused")), s)
  else (.ok (), { s with watches := s.watches ++ [w] })

def targets (s : FeedSession) (dataId : String) : List Watch :=
  s.watches.filter fun w => w.dataId == dataId

/-- Hands a published document to its watches; the answer is how many there are. -/
def publish (s : FeedSession) (e : Engine) (dataId payload : String) : Nat × Engine :=
  ((s.targets dataId).length,
    (s.targets dataId).foldl (fun e w => e.onChange w.category payload) e)

end FeedSession
end RuleFeed
