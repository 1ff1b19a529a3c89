import RuleFeed.Json.Shape
import RuleFeed.Text.Decimal

/-!
How the config service is reached. A default stands for "not set", so a layer that is merged in
changes exactly the fields in which it differs from the defaults.
-/
namespace RuleFeed

structure FeedSettings where
  timeoutMs : UInt64
  listenIntervalMs : UInt64
  transportPort : UInt16
  sessionWaitMs : UInt64
  deriving DecidableEq, Repr

inductive SettingsFault where
  | timeoutZero
  | timeoutTooLong
  | listenIntervalZero
  | transportPortZero
  | sessionWaitZero
  | sessionWaitTooLong
  deriving DecidableEq, Repr

def layered {α : Type} [DecidableEq α] (default lower upper : α) : α :=
  if upper = default then lower else upper

namespace FeedSettings

open Json

def defaultTimeoutMs : UInt64 := 3000

def maxTimeoutMs : UInt64 := 60000

def defaultListenIntervalMs : UInt64 := 30000

def defaultTransportPort : UInt16 := 8080

def defaultSessionWaitMs : UInt64 := 30000

def maxSessionWaitMs : UInt64 := 600000

def standard : FeedSettings :=
  ⟨defaultTimeoutMs, defaultListenIntervalMs, defaultTransportPort, defaultSessionWaitMs⟩

def shape : Shape FeedSettings where
  blank := standard
  fields := [
    .optional "timeout_ms" Node.uint64 fun v s => { s with timeoutMs := v },
    .optional "listen_interval_ms" Node.uint64 fun v s => { s with listenIntervalMs := v },
    .optional "transport_port" Node.uint16 fun v s => { s with transportPort := v },
    .optional "session_wait_timeout_ms" Node.uint64 fun v s => { s with sessionWaitMs := v }]

def ofDocument (text : String) : Reading FeedSettings := shape.readDocument text

def merge (lower upper : FeedSettings) : FeedSettings where
  timeoutMs := layered defaultTimeoutMs lower.timeoutMs upper.timeoutMs
  listenIntervalMs := layered defaultListenIntervalMs lower.listenIntervalMs upper.listenIntervalMs
  transportPort := layered defaultTransportPort lower.transportPort upper.transportPort
  sessionWaitMs := layered defaultSessionWaitMs lower.sessionWaitMs upper.sessionWaitMs

def validate (s : FeedSettings) : Except SettingsFault Unit :=
  if s.timeoutMs = 0 then .error .timeoutZero
  else if maxTimeoutMs < s.timeoutMs then .error .timeoutTooLong
  else if s.listenIntervalMs = 0 then .error .listenIntervalZero
  else if s.transportPort = 0 then .error .transportPortZero
  else if s.sessionWaitMs = 0 then .error .sessionWaitZero
  else if maxSessionWaitMs < s.sessionWaitMs then .error .sessionWaitTooLong
  else .ok ()

def endpoint (s : FeedSettings) (host : String) : String :=
  host ++ ":" ++ Decimal.write s.transportPort.toNat

end FeedSettings

def SettingsFault.message : SettingsFault → String
  | .timeoutZero => "timeout_ms must be non-zero"
  | .timeoutTooLong =>
    "timeout_ms must not exceed " ++ Decimal.write FeedSettings.maxTimeoutMs.toNat
  | .listenIntervalZero => "listen_interval_ms must be non-zero"
  | .transportPortZero => "transport_port must be non-zero"
  | .sessionWaitZero => "session_wait_timeout_ms must be non-zero"
  | .sessionWaitTooLong =>
    "session_wait_timeout_ms must not exceed " ++
      Decimal.write FeedSettings.maxSessionWaitMs.toNat

def SettingsFault.errorMessage (f : SettingsFault) : String :=
  "invalid datasource configuration: " ++ f.message

end RuleFeed
