import RuleFeed.Text.Decimal

/-!
The promise of a session token. The first delivery settles it; every later one is refused and
changes nothing, so all who read the token read the same one.
-/
namespace RuleFeed

structure Promise where
  token : Option String
  deriving DecidableEq, Repr

inductive DeliveryError where
  | alreadyDelivered
  deriving DecidableEq, Repr

def DeliveryError.message : DeliveryError → String
  | .alreadyDelivered => "session token already delivered"

structure SessionTimeout where
  timeoutMs : UInt64
  deriving DecidableEq, Repr

namespace SessionTimeout

/-- The report on a wait of any length, of which it holds the last 64 bits. -/
def after (timeoutMs : Nat) : SessionTimeout := ⟨.ofNat timeoutMs⟩

@[simp] theorem after_toNat (timeoutMs : UInt64) : after timeoutMs.toNat = ⟨timeoutMs⟩ := by
  rw [after, UInt64.ofNat_toNat]

def message (e : SessionTimeout) : String :=
  "timed out after " ++ Decimal.write e.timeoutMs.toNat ++ "ms waiting for the transport session"

end SessionTimeout

namespace Promise

def unsettled : Promise := ⟨none⟩

def isSettled (p : Promise) : Bool := p.token.isSome

def deliver (p : Promise) (token : String) : Except DeliveryError Unit × Promise :=
  match p.token with
  | some _ => (.error .alreadyDelivered, p)
  | none => (.ok (), ⟨some token⟩)

theorem token_deliver (p : Promise) (token : String) :
    (p.deliver token).2.token = some (p.token.getD token) := by
  obtain ⟨current⟩ := p
  cases current <;> rfl

def wait (p : Promise) (timeoutMs : Nat) : Except SessionTimeout String :=
  match p.token with
  | some token => .ok token
  | none => .error (.after timeoutMs)

end Promise
end RuleFeed
