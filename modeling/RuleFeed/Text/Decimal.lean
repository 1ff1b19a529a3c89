import RuleFeed.Text.Digit

/-!
Natural numbers in decimal. Writing gives no leading zero; reading takes any number of them.
-/
namespace RuleFeed.Decimal

def digits (n : Nat) : List Char :=
  if n < 10 then [digitChar n] else digits (n / 10) ++ [digitChar (n % 10)]

def write (n : Nat) : String := String.ofList (digits n)

def extend (n : Option Nat) (c : Char) : Option Nat := do
  let n ← n
  let d ← digit? c
  return n * 10 + d

def read? : List Char → Option Nat
  | [] => none
  | cs => cs.foldl extend (some 0)

theorem digits_ne_nil (n : Nat) : digits n ≠ [] := by
  unfold digits
  split <;> simp

private theorem foldl_digits (n : Nat) : (digits n).foldl extend (some 0) = some n := by
  fun_induction digits n with
  | case1 n h => simp [extend, digit?_digitChar h]
  | case2 n h ih =>
    have last : digit? (digitChar (n % 10)) = some (n % 10) :=
      digit?_digitChar (Nat.mod_lt n (by decide))
    simp only [List.foldl_append, ih, List.foldl_cons, List.foldl_nil, extend, last]
    simp only [Option.bind_eq_bind, Option.bind_some, Option.pure_def, Option.some.injEq]
    omega

@[simp] theorem read?_digits (n : Nat) : read? (digits n) = some n := by
  have h := foldl_digits n
  have nonempty := digits_ne_nil n
  generalize digits n = cs at h nonempty
  cases cs with
  | nil => exact absurd rfl nonempty
  | cons c cs => exact h

theorem write_injective {m n : Nat} (h : write m = write n) : m = n := by
  have lists : digits m = digits n := by
    simpa only [write, String.toList_ofList] using congrArg String.toList h
  have reads := congrArg read? lists
  simpa only [read?_digits, Option.some.injEq] using reads

end RuleFeed.Decimal
