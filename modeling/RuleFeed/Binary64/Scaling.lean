import RuleFeed.Binary64.Rounding

/-!
Values scaled by powers of ten. The powers up to 10^308 are values themselves, each the nearest
one; a value is multiplied or divided by one of them and rounded once more. For a smaller scale it
is first divided by 10^308, and rounded, as often as it takes.
-/
namespace RuleFeed.Binary64

def mul (x y : Binary64) : Binary64 :=
  ofQuotient (x.negative != y.negative) (x.units * y.units) (1 <<< 2148)

def div (x y : Binary64) : Binary64 := ofQuotient (x.negative != y.negative) x.units y.units

def powerOfTen (n : Nat) : Binary64 := ofQuotient false (Nat.pow 10 n) 1

/-- So many divisions by 10^308; once the value is zero it stays so. -/
def shrink (x : Binary64) : Nat → Binary64
  | 0 => x
  | n + 1 => if x.magnitude = 0 then x else shrink (x.div (powerOfTen 308)) n

def scaled (x : Binary64) (exponent : Int) : Binary64 :=
  if 308 < exponent then
    if x.magnitude = 0 then x else infinity x.negative
  else if 0 ≤ exponent then x.mul (powerOfTen exponent.toNat)
  else
    let places := (-exponent).toNat - 1
    (x.shrink (places / 308)).div (powerOfTen (places % 308 + 1))

end RuleFeed.Binary64
