import RuleFeed.Binary64

/-!
Saturating casts to integers: toward zero, clamped to the range of the target, a NaN to zero and
an infinity to the end of the range on its side.
-/
namespace RuleFeed.Binary64

def truncate (x : Binary64) : Int :=
  if x.negative then -(x.units >>> 1074 : Nat) else (x.units >>> 1074 : Nat)

def clampTo (low high : Int) (x : Binary64) : Int :=
  if x.isNaN then 0
  else if x.isFinite then max low (min high x.truncate)
  else if x.negative then low
  else high

theorem clampTo_mem {low high : Int} (x : Binary64) (hl : low ≤ 0) (hh : 0 ≤ high) :
    low ≤ clampTo low high x ∧ clampTo low high x ≤ high := by
  unfold clampTo
  split
  · exact ⟨hl, hh⟩
  · split
    · omega
    · split <;> omega

def toInt64 (x : Binary64) : Int64 :=
  Int64.ofInt (x.clampTo (-0x8000000000000000) 0x7fffffffffffffff)

def toUInt64 (x : Binary64) : UInt64 := UInt64.ofNat (x.clampTo 0 0xffffffffffffffff).toNat

end RuleFeed.Binary64
