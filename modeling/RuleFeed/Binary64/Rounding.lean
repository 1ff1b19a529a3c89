import RuleFeed.Binary64

/-!
Rounding to the nearest binary64, a tie going to the even neighbour. A quotient of naturals is
scaled to units of 2^-1074 and divided once, by a step of the grid that its whole part selects;
nothing is rounded twice. A quotient beyond the largest finite value rounds to infinity.
-/
namespace RuleFeed.Binary64

def nearestEven (num den : Nat) : Nat :=
  match compare (2 * (num % den)) den with
  | .lt => num / den
  | .gt => num / den + 1
  | .eq => if num / den % 2 = 0 then num / den else num / den + 1

/-- How many times the grid spacing doubles before it reaches a value of `units` units. -/
def spacing (units : Nat) : Nat := units.log2 - 52

/-- The magnitude nearest to `num / den`. The significand is added to the spacing, so a
significand rounded up to 2^53 carries into the exponent. -/
def nearestMagnitude (num den : Nat) : Nat :=
  let scaled := num <<< 1074
  let shift := spacing (scaled / den)
  min (shift * hiddenBit + nearestEven scaled (den <<< shift)) infinite

theorem nearestMagnitude_lt (num den : Nat) : nearestMagnitude num den < 0x8000000000000000 :=
  Nat.lt_of_le_of_lt (Nat.min_le_right _ _) (by decide)

def ofQuotient (negative : Bool) (num den : Nat) : Binary64 :=
  ⟨negative, nearestMagnitude num den, nearestMagnitude_lt num den⟩

def ofInt (n : Int) : Binary64 := ofQuotient (n < 0) n.natAbs 1

def infinity (negative : Bool) : Binary64 := ⟨negative, infinite, by decide⟩

/-- The value nearest to `digits * 10 ^ exponent`. Outside a generous range of exponents the
result is infinite or zero whatever the digits, and the power of ten is not computed. -/
def ofDecimal (negative : Bool) (digits : Nat) (exponent : Int) : Binary64 :=
  if digits = 0 then { zero with negative := negative }
  else if 400 < exponent then infinity negative
  else if exponent + digits.log2 < -400 then { zero with negative := negative }
  else if 0 ≤ exponent then ofQuotient negative (digits * Nat.pow 10 exponent.toNat) 1
  else ofQuotient negative digits (Nat.pow 10 (-exponent).toNat)

end RuleFeed.Binary64
