import RuleFeed.Host.Interface

/-!
The address by which other hosts reach a machine. Its interfaces and their addresses are scanned in
order, and the first address wins that lies on an interface which is up and no loopback, has a view
of version 4, and is neither unspecified nor a loopback address under that view. An interface that
offers no such address may stand anywhere or be left out.
-/
namespace RuleFeed

namespace Ipv6

def ofBytes (high low : UInt8) : UInt16 := UInt16.ofNat (high.toNat * 256 + low.toNat)

theorem toNat_ofBytes (high low : UInt8) :
    (ofBytes high low).toNat = high.toNat * 256 + low.toNat := by
  have bound := high.toNat_lt
  have bound' := low.toNat_lt
  exact UInt16.toNat_ofNat_of_lt' (by simp only [UInt16.size]; omega)

@[simp] theorem highByte_ofBytes (high low : UInt8) : highByte (ofBytes high low) = high := by
  have bound := low.toNat_lt
  have quotient : (high.toNat * 256 + low.toNat) / 256 = high.toNat := by omega
  rw [highByte, toNat_ofBytes, quotient, UInt8.ofNat_toNat]

@[simp] theorem lowByte_ofBytes (high low : UInt8) : lowByte (ofBytes high low) = low := by
  have bound := low.toNat_lt
  have remainder : (high.toNat * 256 + low.toNat) % 256 = low.toNat := by omega
  rw [lowByte, toNat_ofBytes, remainder, UInt8.ofNat_toNat]

@[simp] theorem ofBytes_bytes (g : UInt16) : ofBytes (highByte g) (lowByte g) = g := by
  have bound := g.toNat_lt
  have high : (highByte g).toNat = g.toNat / 256 :=
    UInt8.toNat_ofNat_of_lt' (by simp only [UInt8.size]; omega)
  have low : (lowByte g).toNat = g.toNat % 256 :=
    UInt8.toNat_ofNat_of_lt' (by simp only [UInt8.size]; omega)
  rw [← UInt16.toNat_inj, toNat_ofBytes, high, low]
  omega

def ofIpv4 (ip : Ipv4) : Ipv6 := ⟨0, 0, 0, 0, 0, 0xffff, ofBytes ip.a ip.b, ofBytes ip.c ip.d⟩

theorem mapped?_eq_some_iff {ip : Ipv6} {view : Ipv4} :
    ip.mapped? = some view ↔ ip = ofIpv4 view := by
  constructor
  · intro mapped
    rw [mapped?] at mapped
    split at mapped
    case isFalse => cases mapped
    case isTrue form =>
      cases mapped
      rw [ofIpv4, ofBytes_bytes, ofBytes_bytes]
      exact form
  · rintro rfl
    simp only [mapped?, ofIpv4, if_true, highByte_ofBytes, lowByte_ofBytes]

end Ipv6

theorem Ipv4.isRouteable_iff {ip : Ipv4} :
    ip.isRouteable = true ↔ ip ≠ ⟨0, 0, 0, 0⟩ ∧ ip.a ≠ 127 := by
  simp only [isRouteable, isUnspecified, isLoopback, Bool.and_eq_true, Bool.not_eq_true',
    beq_eq_false_iff_ne]

namespace Address

/-- What an address is as one of version 4. -/
inductive View : Address → Ipv4 → Prop
  | plain (ip : Ipv4) : View (.v4 ip) ip
  | mapped (ip : Ipv4) : View (.v6 (.ofIpv4 ip)) ip

theorem ipv4?_eq_some_iff {a : Address} {ip : Ipv4} : a.ipv4? = some ip ↔ a.View ip := by
  cases a with
  | v4 own =>
    rw [ipv4?, Option.some.injEq]
    constructor
    · rintro rfl
      exact .plain own
    · rintro ⟨⟩
      rfl
  | v6 own =>
    rw [ipv4?, Ipv6.mapped?_eq_some_iff]
    constructor
    · rintro rfl
      exact .mapped ip
    · rintro ⟨⟩
      rfl

theorem View.unique {a : Address} {ip other : Ipv4} (view : a.View ip) (view' : a.View other) :
    ip = other :=
  Option.some.inj ((ipv4?_eq_some_iff.mpr view).symm.trans (ipv4?_eq_some_iff.mpr view'))

def Usable (a : Address) : Prop := ∃ ip, a.View ip ∧ ip ≠ ⟨0, 0, 0, 0⟩ ∧ ip.a ≠ 127

theorem View.usable_iff {a : Address} {ip : Ipv4} (view : a.View ip) :
    a.Usable ↔ ip ≠ ⟨0, 0, 0, 0⟩ ∧ ip.a ≠ 127 := by
  constructor
  · rintro ⟨other, view', usable⟩
    rw [view.unique view']
    exact usable
  · exact fun usable => ⟨ip, view, usable⟩

theorem usable_mapped_iff (ip : Ipv4) :
    (Address.v6 (.ofIpv4 ip)).Usable ↔ (Address.v4 ip).Usable := by
  rw [(View.mapped ip).usable_iff, (View.plain ip).usable_iff]

theorem not_usable_compatible (g h : UInt16) :
    ¬ (Address.v6 ⟨0, 0, 0, 0, 0, 0, g, h⟩).Usable := by
  rintro ⟨ip, view, -⟩
  have form := Ipv6.mapped?_eq_some_iff.mp (ipv4?_eq_some_iff.mpr view)
  exact nomatch (congrArg Ipv6.g5 form : (0 : UInt16) = 0xffff)

/-- Loopback addresses of both versions: the network 127.0.0.0/8 and `::1`. -/
def isLoopback : Address → Bool
  | .v4 ip => ip.isLoopback
  | .v6 ip => ip == ⟨0, 0, 0, 0, 0, 0, 0, 1⟩

end Address

namespace Interface

theorem routeable?_eq_some_iff {a : Address} {ip : Ipv4} :
    routeable? a = some ip ↔ a.View ip ∧ ip ≠ ⟨0, 0, 0, 0⟩ ∧ ip.a ≠ 127 := by
  rw [routeable?, Option.filter_eq_some_iff, Address.ipv4?_eq_some_iff, Ipv4.isRouteable_iff]

theorem routeable?_eq_none_iff {a : Address} : routeable? a = none ↔ ¬ a.Usable := by
  rw [Option.eq_none_iff_forall_ne_some, Address.Usable, not_exists]
  exact forall_congr' fun ip => not_congr routeable?_eq_some_iff

structure Offers (i : Interface) (a : Address) (ip : Ipv4) : Prop where
  up : i.up = true
  external : i.loopback = false
  view : a.View ip
  specified : ip ≠ ⟨0, 0, 0, 0⟩
  outside : ip.a ≠ 127

/-- The addresses in the order of the scan, each with its interface. -/
def scan (is : List Interface) : List (Interface × Address) :=
  is.flatMap fun i => i.addresses.map (i, ·)

def offer? (p : Interface × Address) : Option Ipv4 :=
  if p.1.up && !p.1.loopback then routeable? p.2 else none

theorem offer?_eq_some_iff {p : Interface × Address} {ip : Ipv4} :
    offer? p = some ip ↔ p.1.Offers p.2 ip := by
  rw [offer?, Option.ite_none_right_eq_some, routeable?_eq_some_iff, Bool.and_eq_true,
    Bool.not_eq_true']
  constructor
  · rintro ⟨⟨up, external⟩, view, specified, outside⟩
    exact ⟨up, external, view, specified, outside⟩
  · rintro ⟨up, external, view, specified, outside⟩
    exact ⟨⟨up, external⟩, view, specified, outside⟩

theorem offer?_eq_none_iff {p : Interface × Address} :
    offer? p = none ↔ ∀ ip, ¬ p.1.Offers p.2 ip := by
  rw [Option.eq_none_iff_forall_ne_some]
  exact forall_congr' fun ip => not_congr offer?_eq_some_iff

theorem routeable_eq (i : Interface) : i.routeable = (i.addresses.map (i, ·)).filterMap offer? := by
  rw [List.filterMap_map, routeable]
  by_cases active : (i.up && !i.loopback) = true
  · rw [if_pos active]
    congr 1
    funext a
    exact (if_pos active).symm
  · rw [if_neg active, eq_comm, List.filterMap_eq_nil_iff]
    exact fun a _ => if_neg active

theorem firstRouteable?_eq (is : List Interface) :
    firstRouteable? is = (scan is).findSome? offer? := by
  have each : routeable = fun i => (i.addresses.map (i, ·)).filterMap offer? := funext routeable_eq
  rw [firstRouteable?, each, ← List.head?_filterMap, scan, List.filterMap_flatMap]

theorem firstRouteable?_eq_some_iff {is : List Interface} {ip : Ipv4} :
    firstRouteable? is = some ip ↔ ∃ before i a after, scan is = before ++ (i, a) :: after ∧
      i.Offers a ip ∧ ∀ p ∈ before, ∀ other, ¬ p.1.Offers p.2 other := by
  rw [firstRouteable?_eq, List.findSome?_eq_some_iff]
  simp only [Prod.exists, offer?_eq_some_iff, offer?_eq_none_iff]

theorem mem_scan {is : List Interface} {i : Interface} {a : Address} :
    (i, a) ∈ scan is ↔ i ∈ is ∧ a ∈ i.addresses := by
  simp only [scan, List.mem_flatMap, List.mem_map, Prod.mk.injEq]
  constructor
  · rintro ⟨j, mem, b, held, rfl, rfl⟩
    exact ⟨mem, held⟩
  · rintro ⟨mem, held⟩
    exact ⟨i, mem, a, held, rfl, rfl⟩

theorem firstRouteable?_eq_none_iff {is : List Interface} :
    firstRouteable? is = none ↔ ∀ i ∈ is, ∀ a ∈ i.addresses, ∀ ip, ¬ i.Offers a ip := by
  rw [firstRouteable?_eq, List.findSome?_eq_none_iff, Prod.forall]
  simp only [mem_scan, offer?_eq_none_iff, and_imp]
  exact ⟨fun none i mem a => none i a mem, fun none i a mem => none i mem a⟩

theorem routeable_eq_nil {j : Interface}
    (idle : j.up = false ∨ j.loopback = true ∨ ∀ a ∈ j.addresses, ¬ a.Usable) :
    j.routeable = [] := by
  rw [routeable]
  split
  case isFalse => rfl
  case isTrue active =>
    rw [Bool.and_eq_true, Bool.not_eq_true'] at active
    rcases idle with down | loopback | unusable
    · rw [down] at active
      cases active.1
    · rw [loopback] at active
      cases active.2
    · exact List.filterMap_eq_nil_iff.mpr fun a mem => routeable?_eq_none_iff.mpr (unusable a mem)

theorem firstRouteable?_insert {j : Interface}
    (idle : j.up = false ∨ j.loopback = true ∨ ∀ a ∈ j.addresses, ¬ a.Usable)
    (xs ys : List Interface) : firstRouteable? (xs ++ j :: ys) = firstRouteable? (xs ++ ys) := by
  simp only [firstRouteable?, List.flatMap_append, List.flatMap_cons, routeable_eq_nil idle,
    List.nil_append]

theorem routeable?_of_isLoopback {a : Address} (loopback : a.isLoopback = true) :
    routeable? a = none := by
  rw [routeable?_eq_none_iff]
  rintro ⟨ip, view, specified, outside⟩
  cases view with
  | plain ip => exact outside (beq_iff_eq.mp loopback)
  | mapped ip => exact nomatch (congrArg Ipv6.g5 (beq_iff_eq.mp loopback) : (0xffff : UInt16) = 0)

theorem flatMap_routeable (is : List Interface) :
    is.flatMap routeable =
      ((is.filter fun i => i.up && !i.loopback).flatMap addresses).filterMap routeable? := by
  induction is with
  | nil => rfl
  | cons i is ih =>
    rw [List.flatMap_cons, ih, routeable]
    by_cases active : (i.up && !i.loopback) = true
    · rw [if_pos active, List.filter_cons, if_pos active, List.flatMap_cons,
        List.filterMap_append]
    · rw [if_neg active, List.filter_cons, if_neg active, List.nil_append]

/-- The scan in stages: loopback addresses of either version can be dropped before there is a view
of them. -/
theorem firstRouteable?_eq_find? (is : List Interface) :
    firstRouteable? is =
      ((((is.filter fun i => i.up && !i.loopback).flatMap addresses).filter
        fun a => !a.isLoopback).filterMap Address.ipv4?).find? Ipv4.isRouteable := by
  have early : (fun a => if (!a.isLoopback) = true then routeable? a else none) = routeable? := by
    funext a
    split
    case isTrue => rfl
    case isFalse loopback =>
      rw [Bool.not_eq_true', Bool.not_eq_false] at loopback
      exact (routeable?_of_isLoopback loopback).symm
  rw [← List.head?_filter, List.filter_filterMap, List.filterMap_filter, firstRouteable?,
    flatMap_routeable, ← early]
  rfl

/-- The scan takes the first address that is offered, so it finds one if there is one and never a
loopback or unspecified one; lists can be scanned one after the other, and an interface that offers
nothing does not matter. Addresses of the compatible form are not usable, `::1` among them, and a
mapped address is as usable as the one that is mapped. -/
theorem firstRouteable?_takes_first_offer :
    (∀ is ip, firstRouteable? is = some ip ↔ ∃ before i a after,
      scan is = before ++ (i, a) :: after ∧ i.Offers a ip ∧
        ∀ p ∈ before, ∀ other, ¬ p.1.Offers p.2 other) ∧
    (∀ is, firstRouteable? is = none ↔
      ∀ i ∈ is, ∀ a ∈ i.addresses, ∀ ip, ¬ i.Offers a ip) ∧
    (∀ is, firstRouteable? is =
      ((((is.filter fun i => i.up && !i.loopback).flatMap addresses).filter
        fun a => !a.isLoopback).filterMap Address.ipv4?).find? Ipv4.isRouteable) ∧
    (∀ is ip, firstRouteable? is = some ip → ip ≠ ⟨0, 0, 0, 0⟩ ∧ ip.a ≠ 127) ∧
    (∀ xs ys, firstRouteable? (xs ++ ys) = (firstRouteable? xs).or (firstRouteable? ys)) ∧
    (∀ xs j ys, (j.up = false ∨ j.loopback = true ∨ ∀ a ∈ j.addresses, ¬ a.Usable) →
      firstRouteable? (xs ++ j :: ys) = firstRouteable? (xs ++ ys)) ∧
    (∀ g h, ¬ (Address.v6 ⟨0, 0, 0, 0, 0, 0, g, h⟩).Usable) ∧
    (∀ ip, (Address.v4 ip).Usable ↔ ip ≠ ⟨0, 0, 0, 0⟩ ∧ ip.a ≠ 127) ∧
    ∀ ip, (Address.v6 (.ofIpv4 ip)).Usable ↔ (Address.v4 ip).Usable := by
  refine ⟨fun is ip => firstRouteable?_eq_some_iff, fun is => firstRouteable?_eq_none_iff,
    firstRouteable?_eq_find?, fun is ip found => ?_, firstRouteable?_append,
    fun xs j ys idle => firstRouteable?_insert idle xs ys, Address.not_usable_compatible,
    fun ip => (Address.View.plain ip).usable_iff, Address.usable_mapped_iff⟩
  obtain ⟨before, i, a, after, -, offers, -⟩ := firstRouteable?_eq_some_iff.mp found
  exact ⟨offers.specified, offers.outside⟩

/-- The tunnel has only addresses that look usable, so the address that is mapped on the next
interface is taken, with the tunnel and without it. -/
theorem firstRouteable?_takes_first_offer_mapped :
    let tunnel : Interface := ⟨"tun0", true, false, [
      .v6 ⟨0, 0, 0, 0, 0, 0, 0, 1⟩, .v6 ⟨0, 0, 0, 0, 0, 0, 0x0a00, 9⟩,
      .v6 (.ofIpv4 ⟨127, 0, 0, 1⟩), .v4 ⟨0, 0, 0, 0⟩]⟩
    let wired : Interface := ⟨"eth0", true, false,
      [.v6 ⟨0xfe80, 0, 0, 0, 0, 0, 0, 1⟩, .v6 (.ofIpv4 ⟨10, 0, 0, 7⟩), .v4 ⟨10, 0, 0, 8⟩]⟩
    firstRouteable? [tunnel, wired] = some ⟨10, 0, 0, 7⟩ ∧
      firstRouteable? [wired] = some ⟨10, 0, 0, 7⟩ ∧ (10 : UInt8) ≠ 127 := by
  intro tunnel wired
  obtain ⟨-, -, -, reachable, -, inserted, compatible, plain, mapped⟩ :=
    firstRouteable?_takes_first_offer
  have unusable : ∀ a ∈ tunnel.addresses, ¬ a.Usable := by
    simp only [tunnel, List.forall_mem_cons, List.not_mem_nil, false_imp_iff, implies_true,
      compatible, mapped, plain]
    decide
  have found : firstRouteable? [wired] = some ⟨10, 0, 0, 7⟩ := by decide
  refine ⟨?_, found, (reachable _ _ found).2⟩
  rw [← found]
  exact inserted [] tunnel [wired] (.inr (.inr unusable))

end Interface
end RuleFeed
