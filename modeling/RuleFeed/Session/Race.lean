import RuleFeed.Session.Promise

/-!
Waiters and deliveries on one promise and one clock. The race is a list of events in the order of
their instants: a waiter arrives, a token is delivered, a waiter's time is up. A waiter that
arrives at an unsettled promise stays until the promise is settled or its time is up, whichever
event comes first.
-/
namespace RuleFeed

structure Waiter where
  instant : Nat
  timeoutMs : Nat
  deriving DecidableEq, Repr

structure Delivery where
  instant : Nat
  token : String
  deriving DecidableEq, Repr

inductive RaceEvent where
  | arrive (waiter : Nat) (timeoutMs : Nat)
  | deliver (delivery : Nat) (token : String)
  | expire (waiter : Nat) (timeoutMs : Nat)
  deriving DecidableEq, Repr

structure Race where
  promise : Promise
  waiting : List Nat
  waits : List (Nat × Except SessionTimeout String)
  deliveries : List (Nat × Except DeliveryError Unit)

namespace Race

def start (p : Promise) : Race := ⟨p, [], [], []⟩

def wake (r : Race) : Race :=
  match r.promise.token with
  | none => r
  | some token =>
    { r with waiting := [], waits := r.waiting.map (fun i => (i, .ok token)) ++ r.waits }

def step (r : Race) : RaceEvent → Race
  | .arrive i _ => wake { r with waiting := i :: r.waiting }
  | .deliver i token =>
    wake { r with
      promise := (r.promise.deliver token).2
      deliveries := (i, (r.promise.deliver token).1) :: r.deliveries }
  | .expire i timeoutMs =>
    if r.waiting.contains i then
      { r with
        waiting := r.waiting.filter (· != i)
        waits := (i, .error (.after timeoutMs)) :: r.waits }
    else r

def waiterEvents (i : Nat) : List Waiter → List (Nat × RaceEvent)
  | [] => []
  | w :: ws =>
    (w.instant, .arrive i w.timeoutMs) :: (w.instant + w.timeoutMs, .expire i w.timeoutMs) ::
      waiterEvents (i + 1) ws

def deliveryEvents (i : Nat) : List Delivery → List (Nat × RaceEvent)
  | [] => []
  | d :: ds => (d.instant, .deliver i d.token) :: deliveryEvents (i + 1) ds

def timeline (ws : List Waiter) (ds : List Delivery) : List RaceEvent :=
  ((waiterEvents 0 ws ++ deliveryEvents 0 ds).mergeSort fun e f => e.1 ≤ f.1).map Prod.snd

def run (p : Promise) (ws : List Waiter) (ds : List Delivery) : Race :=
  (timeline ws ds).foldl step (start p)

def wait? (r : Race) (i : Nat) : Option (Except SessionTimeout String) := r.waits.lookup i

def delivery? (r : Race) (i : Nat) : Option (Except DeliveryError Unit) := r.deliveries.lookup i

end Race
end RuleFeed
