import RuleFeed.Binary64.Truncation
import RuleFeed.Rule.Breaker
import RuleFeed.Text.Decimal

/-!
Circuit breaking rules as the console publishes them. The grade selects the strategy. For the slow
request ratio the record's count is the response time that counts as slow, and the ratio stands in
a field of its own.
-/
namespace RuleFeed

structure BreakerRecord where
  id : UInt64
  resource : String
  threshold : Binary64
  grade : UInt32
  retryTimeoutSec : UInt32
  minRequestAmount : UInt64
  slowRatioThreshold : Binary64
  statIntervalMs : UInt32
  deriving DecidableEq, Repr

def BreakerStrategy.ofGrade? (grade : UInt32) : Option BreakerStrategy :=
  if grade = 0 then some .slowRequestRatio
  else if grade = 1 then some .errorRatio
  else if grade = 2 then some .errorCount
  else none

namespace BreakerRecord

open Json

def blank : BreakerRecord := ⟨0, "", .zero, 0, 0, 0, .zero, 0⟩

def shape : Shape BreakerRecord where
  blank := blank
  fields := [
    .nullable "id" 0 Node.uint64 fun v r => { r with id := v },
    .nullable "resource" "" Node.string fun v r => { r with resource := v },
    .nullable "count" .zero Node.real fun v r => { r with threshold := v },
    .nullable "grade" 0 Node.uint32 fun v r => { r with grade := v },
    .nullable "timeWindow" 0 Node.uint32 fun v r => { r with retryTimeoutSec := v },
    .nullable "minRequestAmount" 0 Node.uint64 fun v r => { r with minRequestAmount := v },
    .nullable "slowRatioThreshold" .zero Node.real fun v r => { r with slowRatioThreshold := v },
    .nullable "statIntervalMs" 0 Node.uint32 fun v r => { r with statIntervalMs := v }]

/-- Seconds as milliseconds, at most as many as fit. -/
def millisOfSec (sec : UInt32) : UInt32 := UInt32.ofNat (min (sec.toNat * 1000) 0xffffffff)

theorem toNat_millisOfSec (sec : UInt32) :
    (millisOfSec sec).toNat = min (sec.toNat * 1000) 0xffffffff := by
  have bound : min (sec.toNat * 1000) 0xffffffff < 0x100000000 :=
    Nat.lt_of_le_of_lt (Nat.min_le_right _ _) (by decide)
  exact UInt32.toNat_ofNat_of_lt' bound

def ruleWith (r : BreakerRecord) (strategy : BreakerStrategy) : BreakerRule where
  id := Decimal.write r.id.toNat
  resource := r.resource
  strategy := strategy
  retryTimeoutMs := millisOfSec r.retryTimeoutSec
  minRequestAmount := r.minRequestAmount
  statIntervalMs := r.statIntervalMs
  maxAllowedRtMs := if strategy = .slowRequestRatio then r.threshold.toUInt64 else 0
  threshold := if strategy = .slowRequestRatio then r.slowRatioThreshold else r.threshold

def rule? (r : BreakerRecord) : Option BreakerRule :=
  (BreakerStrategy.ofGrade? r.grade).map r.ruleWith

end BreakerRecord
end RuleFeed
