import RuleFeed.Host.Address

/-!
Network interfaces, and the address by which other hosts reach this one: the first routeable
address of an interface that is up and no loopback, interfaces and addresses in the order given.
-/
namespace RuleFeed

structure Interface where
  name : String
  up : Bool
  loopback : Bool
  addresses : List Address
  deriving DecidableEq, Repr

namespace Interface

def routeable? (a : Address) : Option Ipv4 := a.ipv4?.filter Ipv4.isRouteable

/-- The routeable addresses of an interface, none if it is down or a loopback. -/
def routeable (i : Interface) : List Ipv4 :=
  if i.up && !i.loopback then i.addresses.filterMap routeable? else []

def firstRouteable? (is : List Interface) : Option Ipv4 := (is.flatMap routeable).head?

theorem firstRouteable?_append (is js : List Interface) :
    firstRouteable? (is ++ js) = (firstRouteable? is).or (firstRouteable? js) := by
  simp only [firstRouteable?, List.flatMap_append, List.head?_append]

end Interface
end RuleFeed
