/-!
Binary64 values as a sign and the 63 bits below it. Read as a number, those bits grow with the
absolute value, and a carry out of the fraction is a step of the exponent, so rounding and
comparison are arithmetic on one natural number. Every finite value is a whole number of units
of 2^-1074; `units` is that number, and all exact statements go through it. Payloads of NaN are
kept but never looked at.
-/
namespace RuleFeed

structure Binary64 where
  negative : Bool
  magnitude : Nat
  magnitude_lt : magnitude < 0x8000000000000000
  deriving DecidableEq, Repr

namespace Binary64

/-- The magnitude of both infinities; every magnitude above it is a NaN. -/
def infinite : Nat := 0x7ff0000000000000

def zero : Binary64 := ⟨false, 0, by decide⟩

def isNaN (x : Binary64) : Bool := infinite < x.magnitude

def isFinite (x : Binary64) : Bool := x.magnitude < infinite

def hiddenBit : Nat := 0x10000000000000

/-- The absolute value of a finite value, counted in units of 2^-1074. -/
def units (x : Binary64) : Nat :=
  if x.magnitude < hiddenBit then x.magnitude
  else (hiddenBit + x.magnitude % hiddenBit) <<< (x.magnitude / hiddenBit - 1)

@[simp] theorem units_zero : zero.units = 0 := by decide

def isNonneg (x : Binary64) : Bool :=
  !x.isNaN && (!x.negative || x.magnitude == 0)

/-- Numeric equality: the two zeros are equal and a NaN equals nothing. -/
def agrees (x y : Binary64) : Bool :=
  !x.isNaN && !y.isNaN &&
    (x.magnitude == y.magnitude && (x.negative == y.negative || x.magnitude == 0))

theorem agrees_self {x : Binary64} (h : x.isNaN = false) : x.agrees x = true := by
  simp [agrees, h]

theorem agrees_comm (x y : Binary64) : x.agrees y = y.agrees x := by
  rw [Bool.eq_iff_iff]
  simp only [agrees, Bool.and_eq_true, Bool.or_eq_true, beq_iff_eq]
  constructor <;> rintro ⟨⟨hx, hy⟩, hm, hs⟩ <;>
    exact ⟨⟨hy, hx⟩, hm.symm, hs.imp Eq.symm fun h => by omega⟩

def toBits (x : Binary64) : UInt64 :=
  UInt64.ofNat (x.magnitude + if x.negative then 0x8000000000000000 else 0)

def ofBits (bits : UInt64) : Binary64 :=
  ⟨0x8000000000000000 ≤ bits.toNat, bits.toNat % 0x8000000000000000, Nat.mod_lt _ (by decide)⟩

theorem ofBits_toBits (x : Binary64) : ofBits x.toBits = x := by
  obtain ⟨negative, magnitude, bound⟩ := x
  cases negative <;> simp [ofBits, toBits] <;> omega

end Binary64
end RuleFeed
