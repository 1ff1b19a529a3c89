import RuleFeed.Identity

/-!
Updates of an identity that are due at instants to come, and a wait for the session token through
them. The wait ends at the update that brings the token or when its time is up; updates due later
are still to come when it has ended.
-/
namespace RuleFeed

inductive Update where
  | setTenant (tenantId : String)
  | setCid (cid : String)
  | deliver (token : String)
  deriving DecidableEq, Repr

def Identity.update (i : Identity) : Update → Identity
  | .setTenant tenantId => i.setTenant tenantId
  | .setCid cid => i.setCid cid
  | .deliver token => (i.deliver token).2

@[simp] theorem Identity.facts_update (i : Identity) (u : Update) :
    (i.update u).facts = i.facts := by
  cases u <;> rfl

/-- Updates with the instants at which they are due, the earliest first. -/
abbrev Schedule := List (Nat × Update)

structure Awaited where
  result : Except SessionTimeout String
  identity : Identity
  later : Schedule

def Identity.awaitUntil (deadline timeoutMs : Nat) (i : Identity) : Schedule → Awaited
  | [] => ⟨i.session.wait timeoutMs, i, []⟩
  | (instant, u) :: later =>
    match i.session.token with
    | some token => ⟨.ok token, i, (instant, u) :: later⟩
    | none =>
      if instant ≤ deadline then awaitUntil deadline timeoutMs (i.update u) later
      else ⟨.error (.after timeoutMs), i, (instant, u) :: later⟩

def Identity.await (i : Identity) (start timeoutMs : Nat) (schedule : Schedule) : Awaited :=
  i.awaitUntil (start + timeoutMs) timeoutMs schedule

end RuleFeed
