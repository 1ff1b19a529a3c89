import RuleFeed.Config
import RuleFeed.Feed.Start

/-!
Starting an agent, in two steps. The first resolves the identity of the process, which the
transport then authenticates with; the second waits for the token that this brings and starts the
synchronisation of rules at the identity's endpoint. Both check the configuration before all else.
-/
namespace RuleFeed

inductive AgentError where
  | config (cause : ConfigFault)
  | bootstrap (cause : BootstrapError)
  | sync (cause : FeedError)
  deriving DecidableEq, Repr

def AgentError.message : AgentError → String
  | .config cause => "invalid agent configuration: " ++ cause.errorMessage
  | .bootstrap cause => "failed to bootstrap process identity: " ++ cause.message
  | .sync cause => "failed to start rule synchronization: " ++ cause.message

structure Agent where
  config : AgentConfig
  identity : Identity
  feed : FeedHandle
  deriving DecidableEq, Repr

namespace Agent

def bootstrap (config : AgentConfig) (discovery : Discovery) (host : Host) :
    Except AgentError Identity := do
  config.validate.mapError .config
  (config.bootstrapRequest.resolve discovery host config.endpointTable).mapError .bootstrap

def start (config : AgentConfig) (instant : Nat) (schedule : Schedule) (state : FeedState) :
    Except AgentError Agent × FeedState × Schedule :=
  match config.validate with
  | .error fault => (.error (.config fault), state, schedule)
  | .ok _ =>
    match config.feed.start state.identity.facts.endpoint config.appName instant schedule state with
    | (.error e, rest) => (.error (.sync e), rest)
    | (.ok handle, state, later) => (.ok ⟨config, state.identity, handle⟩, state, later)

end Agent
end RuleFeed
