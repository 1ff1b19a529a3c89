/-! Digits, all of them ASCII. -/
namespace RuleFeed

def digit? (c : Char) : Option Nat :=
  if '0' ≤ c ∧ c ≤ '9' then some (c.toNat - 48) else none

def hexDigit? (c : Char) : Option Nat :=
  if '0' ≤ c ∧ c ≤ '9' then some (c.toNat - 48)
  else if 'a' ≤ c ∧ c ≤ 'f' then some (c.toNat - 87)
  else if 'A' ≤ c ∧ c ≤ 'F' then some (c.toNat - 55)
  else none

def digitBelow? (base : Nat) (c : Char) : Option Nat :=
  match hexDigit? c with
  | some d => if d < base then some d else none
  | none => none

def digitChar (d : Nat) : Char := Char.ofNat (48 + d)

theorem digit?_digitChar {d : Nat} (h : d < 10) : digit? (digitChar d) = some d := by
  have all : ∀ e : Fin 10, digit? (digitChar e) = some e.val := by decide
  exact all ⟨d, h⟩

end RuleFeed
