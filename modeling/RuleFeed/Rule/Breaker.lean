import RuleFeed.Json.Shape
import RuleFeed.Json.Value

/-! Circuit breaking rules: when calls to a resource are cut off, and for how long. -/
namespace RuleFeed

inductive BreakerStrategy where
  | slowRequestRatio
  | errorRatio
  | errorCount
  deriving DecidableEq, Repr

namespace BreakerStrategy

def tag : BreakerStrategy → String
  | .slowRequestRatio => "slow_request_ratio"
  | .errorRatio => "error_ratio"
  | .errorCount => "error_count"

def ofTag? (tag : String) : Option BreakerStrategy :=
  [slowRequestRatio, errorRatio, errorCount].find? fun s => s.tag == tag

@[simp] theorem ofTag?_tag (s : BreakerStrategy) : ofTag? s.tag = some s := by
  cases s <;> decide

end BreakerStrategy

structure BreakerRule where
  id : String
  resource : String
  strategy : BreakerStrategy
  retryTimeoutMs : UInt32
  minRequestAmount : UInt64
  statIntervalMs : UInt32
  maxAllowedRtMs : UInt64
  threshold : Binary64
  deriving DecidableEq, Repr

namespace BreakerRule

open Json

def blank : BreakerRule := ⟨"", "", .slowRequestRatio, 0, 0, 0, 0, .zero⟩

def shape : Shape BreakerRule where
  blank := blank
  fields := [
    .required "id" Node.string fun v r => { r with id := v },
    .required "resource" Node.string fun v r => { r with resource := v },
    .required "strategy" (Node.tag BreakerStrategy.ofTag?) fun v r => { r with strategy := v },
    .required "retry_timeout_ms" Node.uint32 fun v r => { r with retryTimeoutMs := v },
    .required "min_request_amount" Node.uint64 fun v r => { r with minRequestAmount := v },
    .required "stat_interval_ms" Node.uint32 fun v r => { r with statIntervalMs := v },
    .required "max_allowed_rt_ms" Node.uint64 fun v r => { r with maxAllowedRtMs := v },
    .required "threshold" Node.real fun v r => { r with threshold := v }]

def value (r : BreakerRule) : Value := .object [
  ("id", .text r.id),
  ("resource", .text r.resource),
  ("strategy", .text r.strategy.tag),
  ("retry_timeout_ms", .integer r.retryTimeoutMs.toNat),
  ("min_request_amount", .integer r.minRequestAmount.toNat),
  ("stat_interval_ms", .integer r.statIntervalMs.toNat),
  ("max_allowed_rt_ms", .integer r.maxAllowedRtMs.toNat),
  ("threshold", .real r.threshold)]

def agrees (r s : BreakerRule) : Bool :=
  r.threshold.agrees s.threshold && decide (r = { s with threshold := r.threshold })

end BreakerRule
end RuleFeed
