import RuleFeed.Binary64.Scaling
import RuleFeed.Json.Fault

/-!
Number literals. A literal without point and exponent stands for an integer if it fits 64 bits in
one of the two signednesses; every other literal, and `-0`, stands for a binary64 value. That is
the number of the first digits, as many as 64 bits hold, scaled by the power of ten they count. A
literal whose value is not finite is malformed, but only where the value is asked for.
-/
namespace RuleFeed.Json

structure Numeral where
  negative : Bool
  significand : UInt64
  /-- The power of ten that the last digit of the significand counts. -/
  place : Int
  /-- A digit did not fit, so the digits up to the point or the exponent are left out. -/
  full : Bool
  exponent : Int
  integral : Bool
  deriving DecidableEq, Repr

inductive Number where
  | integer (value : Int)
  | real (value : Binary64)
  deriving DecidableEq, Repr

namespace Numeral

def ofInt (z : Int) : Numeral := ⟨z < 0, .ofNat z.natAbs, 0, false, 0, true⟩

def start (negative : Bool) : Numeral := ⟨negative, 0, 0, false, 0, true⟩

def takes (n : Numeral) (d : Nat) : Bool :=
  !n.full && n.significand.toNat * 10 + d < 0x10000000000000000

def take (n : Numeral) (d : Nat) : Numeral :=
  { n with significand := .ofNat (n.significand.toNat * 10 + d) }

def addWhole (n : Numeral) (d : Nat) : Numeral :=
  if n.takes d then n.take d else { n with place := n.place + 1, full := true }

@[simp] theorem exponent_addWhole (n : Numeral) (d : Nat) :
    (n.addWhole d).exponent = n.exponent := by
  rw [addWhole]
  split <;> rfl

def point (n : Numeral) : Numeral := { n with full := false, integral := false }

def addFraction (n : Numeral) (d : Nat) : Numeral :=
  if n.takes d then { n.take d with place := n.place - 1 } else { n with full := true }

@[simp] theorem exponent_addFraction (n : Numeral) (d : Nat) :
    (n.addFraction d).exponent = n.exponent := by
  rw [addFraction]
  split <;> rfl

def mark (n : Numeral) : Numeral := { n with integral := false }

def addExponent (n : Numeral) (negative : Bool) (d : Nat) : Numeral :=
  { n with exponent := n.exponent * 10 + if negative then -(d : Int) else d }

def int? (n : Numeral) : Option Int :=
  if !n.integral || n.full then none
  else if n.negative then
    if 0 < n.significand.toNat ∧ n.significand.toNat ≤ 0x8000000000000000 then
      some (-n.significand.toNat)
    else none
  else some n.significand.toNat

theorem int?_ofInt {z : Int} (low : -0x8000000000000000 ≤ z) (high : z < 0x10000000000000000) :
    (ofInt z).int? = some z := by
  have digits : (ofInt z).significand.toNat = z.natAbs :=
    UInt64.toNat_ofNat_of_lt' (by simp only [UInt64.size]; omega)
  have whole : ¬(!(ofInt z).integral || (ofInt z).full) = true := Bool.false_ne_true
  have sign : (ofInt z).negative = true ↔ z < 0 := decide_eq_true_iff
  rw [int?, if_neg whole, digits]
  by_cases h : z < 0
  · have bounds : 0 < z.natAbs ∧ z.natAbs ≤ 0x8000000000000000 := by omega
    rw [if_pos (sign.mpr h), if_pos bounds]
    exact congrArg some (by omega)
  · rw [if_neg (mt sign.mp h)]
    exact congrArg some (by omega)

def value (n : Numeral) : Binary64 :=
  { (Binary64.ofInt n.significand.toNat).scaled (n.place + n.exponent) with
    negative := n.negative }

def number (n : Numeral) : Reading Number :=
  match n.int? with
  | some z => .ok (.integer z)
  | none => if n.value.isFinite then .ok (.real n.value) else .error .malformed

theorem number_ofInt {z : Int} (low : -0x8000000000000000 ≤ z) (high : z < 0x10000000000000000) :
    (ofInt z).number = .ok (.integer z) := by
  simp only [number, int?_ofInt low high]

end Numeral

def Number.toBinary64 : Number → Binary64
  | .integer z => Binary64.ofInt z
  | .real x => x

end RuleFeed.Json
