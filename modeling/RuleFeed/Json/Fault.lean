/-!
Why a JSON document is not the value that was asked for. Which of the three applies is decided by
the first fault in text order.
-/
namespace RuleFeed.Json

inductive Fault where
  | truncated
  | malformed
  /-- Grammatical so far, but of the wrong type, out of range, repeated or incomplete. -/
  | mismatch
  deriving DecidableEq, Repr

abbrev Reading (α : Type) := Except Fault α

variable {α β : Type}

theorem map_eq_ok_iff (r : Reading α) (f : α → β) (b : β) :
    r.map f = .ok b ↔ ∃ a, r = .ok a ∧ f a = b := by
  cases r <;> simp [Except.map]

theorem bind_eq_ok_iff (r : Reading α) (next : α → Reading β) (b : β) :
    r >>= next = .ok b ↔ ∃ a, r = .ok a ∧ next a = .ok b := by
  cases r <;> simp [bind, Except.bind]

theorem mapError_eq_ok_iff {ε δ : Type} (r : Except ε α) (f : ε → δ) (a : α) :
    r.mapError f = .ok a ↔ r = .ok a := by
  cases r with
  | error e => exact ⟨nofun, nofun⟩
  | ok b => exact ⟨fun same => congrArg Except.ok (Except.ok.inj same),
      fun same => congrArg Except.ok (Except.ok.inj same)⟩

theorem toOption_eq_some_iff {ε : Type} (r : Except ε α) (a : α) :
    r.toOption = some a ↔ r = .ok a := by
  cases r with
  | error e => exact ⟨nofun, nofun⟩
  | ok b => exact ⟨fun same => congrArg Except.ok (Option.some.inj same),
      fun same => congrArg some (Except.ok.inj same)⟩

end RuleFeed.Json
