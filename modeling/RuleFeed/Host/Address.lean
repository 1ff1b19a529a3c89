import RuleFeed.Text.Decimal

/-!
Internet addresses. An address of version 6 has a view of version 4 only in the mapped form
`::ffff:a.b.c.d`; the older compatible form `::a.b.c.d` has none.
-/
namespace RuleFeed

structure Ipv4 where
  a : UInt8
  b : UInt8
  c : UInt8
  d : UInt8
  deriving DecidableEq, Repr

structure Ipv6 where
  g0 : UInt16
  g1 : UInt16
  g2 : UInt16
  g3 : UInt16
  g4 : UInt16
  g5 : UInt16
  g6 : UInt16
  g7 : UInt16
  deriving DecidableEq, Repr

inductive Address where
  | v4 (ip : Ipv4)
  | v6 (ip : Ipv6)
  deriving DecidableEq, Repr

namespace Ipv4

def isLoopback (ip : Ipv4) : Bool := ip.a == 127

def isUnspecified (ip : Ipv4) : Bool := ip == ⟨0, 0, 0, 0⟩

def isRouteable (ip : Ipv4) : Bool := !ip.isUnspecified && !ip.isLoopback

def write (ip : Ipv4) : String :=
  Decimal.write ip.a.toNat ++ "." ++ Decimal.write ip.b.toNat ++ "." ++
    Decimal.write ip.c.toNat ++ "." ++ Decimal.write ip.d.toNat

end Ipv4

namespace Ipv6

def highByte (g : UInt16) : UInt8 := UInt8.ofNat (g.toNat / 256)

def lowByte (g : UInt16) : UInt8 := UInt8.ofNat (g.toNat % 256)

/-- The address of version 4 that is mapped into one of version 6. -/
def mapped? (ip : Ipv6) : Option Ipv4 :=
  if ip = ⟨0, 0, 0, 0, 0, 0xffff, ip.g6, ip.g7⟩ then
    some ⟨highByte ip.g6, lowByte ip.g6, highByte ip.g7, lowByte ip.g7⟩
  else none

end Ipv6

namespace Address

def ipv4? : Address → Option Ipv4
  | .v4 ip => some ip
  | .v6 ip => ip.mapped?

end Address
end RuleFeed
