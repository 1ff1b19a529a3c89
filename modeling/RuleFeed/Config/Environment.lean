import RuleFeed.Config

/-!
Configuration from environment variables. Texts are taken as they are. Numbers and flags are
trimmed first, and a variable that holds none within its range counts as unset.
-/
namespace RuleFeed

abbrev Environment := String → Option String

/-- A number up to `max`: digits, with or without a plus sign before them. -/
def unsigned? (max : Nat) (cs : List Char) : Option Nat := do
  let n ← Decimal.read? (match cs with
    | '+' :: digits => digits
    | cs => cs)
  if n ≤ max then some n else none

def flag? (cs : List Char) : Option Bool :=
  if cs = "true".toList then some true
  else if cs = "false".toList then some false
  else none

namespace Environment

def text (env : Environment) (name default : String) : String := (env name).getD default

def number (env : Environment) (name : String) (max default : Nat) : Nat :=
  (((env name).map fun s => trim s.toList).bind (unsigned? max)).getD default

def flag (env : Environment) (name : String) : Bool :=
  (((env name).map fun s => trim s.toList).bind flag?).getD false

def feed (env : Environment) : FeedSettings where
  timeoutMs := UInt64.ofNat
    (env.number "RULESYNC_TIMEOUT_MS" 0xffffffffffffffff FeedSettings.defaultTimeoutMs.toNat)
  listenIntervalMs := UInt64.ofNat
    (env.number "RULESYNC_LISTEN_INTERVAL_MS" 0xffffffffffffffff
      FeedSettings.defaultListenIntervalMs.toNat)
  transportPort := UInt16.ofNat
    (env.number "RULESYNC_TRANSPORT_PORT" 0xffff FeedSettings.defaultTransportPort.toNat)
  sessionWaitMs := UInt64.ofNat
    (env.number "RULESYNC_SESSION_WAIT_TIMEOUT_MS" 0xffffffffffffffff
      FeedSettings.defaultSessionWaitMs.toNat)

def config (env : Environment) : AgentConfig where
  license := env.text "RULESYNC_LICENSE" ""
  namespaceName := env.text "RULESYNC_NAMESPACE" AgentConfig.defaultNamespace
  deployEnv := env.text "RULESYNC_DEPLOY_ENV" AgentConfig.defaultDeployEnv
  appName := env.text "RULESYNC_APP_NAME" ""
  secureTransport := env.flag "RULESYNC_SECURE_TRANSPORT"
  debugging := env.flag "RULESYNC_DEBUG"
  feed := env.feed
  endpoints := []

end Environment
end RuleFeed
