import RuleFeed.Feed.Session

/-!
A config service that lives in memory. All its sessions share one set of watches, and it keeps
what each session was opened with. A failure can be laid in for the next session alone.
-/
namespace RuleFeed

structure Transport where
  session : FeedSession
  created : List SessionConfig
  failure : Option TransportError
  deriving DecidableEq, Repr

namespace Transport

def empty : Transport := ⟨.empty, [], none⟩

def failNext (t : Transport) (e : TransportError) : Transport := { t with failure := some e }

def createSession (t : Transport) (config : SessionConfig) :
    Except TransportError Unit × Transport :=
  match t.failure with
  | some e => (.error e, { t with failure := none })
  | none => (.ok (), { t with created := t.created ++ [config] })

end Transport
end RuleFeed
