import Mathlib.Data.List.MinMax
import RuleFeed.Session.Race

/-!
The order of events in a race. Every waiter arrives once and its time is up once, not before it
arrives; every token is delivered once. The first token of any part of the timeline that holds the
earliest delivery is the token of that delivery, and the deliveries up to a deadline are those
that come before the event of the deadline.
-/
namespace RuleFeed

def Waiter.deadline (w : Waiter) : Nat := w.instant + w.timeoutMs

namespace RaceEvent

def waiter? : RaceEvent → Option Nat
  | .arrive i _ => some i
  | .deliver _ _ => none
  | .expire i _ => some i

def delivery? : RaceEvent → Option Nat
  | .arrive _ _ => none
  | .deliver k _ => some k
  | .expire _ _ => none

def token? : RaceEvent → Option String
  | .arrive _ _ => none
  | .deliver _ token => some token
  | .expire _ _ => none

end RaceEvent

namespace Race

abbrev TimedEvent := Nat × RaceEvent

def schedule (ws : List Waiter) (ds : List Delivery) : List TimedEvent :=
  (waiterEvents 0 ws ++ deliveryEvents 0 ds).mergeSort fun e f => e.1 ≤ f.1

def firstToken? (es : List TimedEvent) : Option String := es.findSome? fun e => e.2.token?

variable {ws : List Waiter} {ds : List Delivery}

theorem bounds_of_mem_waiterEvents {first : Nat} {e : TimedEvent}
    (mem : e ∈ waiterEvents first ws) :
    ∃ i, e.2.waiter? = some i ∧ e.2.delivery? = none ∧ first ≤ i ∧ i < first + ws.length := by
  induction ws generalizing first with
  | nil => cases mem
  | cons w ws ih =>
    rw [List.length_cons]
    simp only [waiterEvents, List.mem_cons] at mem
    rcases mem with rfl | rfl | mem
    · exact ⟨first, rfl, rfl, by omega⟩
    · exact ⟨first, rfl, rfl, by omega⟩
    · obtain ⟨i, waiter, delivery, low, high⟩ := ih mem
      exact ⟨i, waiter, delivery, by omega⟩

theorem mem_deliveryEvents_iff {first : Nat} {e : TimedEvent} :
    e ∈ deliveryEvents first ds ↔
      ∃ k d, ds[k]? = some d ∧ e = (d.instant, .deliver (first + k) d.token) := by
  induction ds generalizing first with
  | nil => simp [deliveryEvents]
  | cons d ds ih =>
    rw [deliveryEvents, List.mem_cons, ih]
    constructor
    · rintro (rfl | ⟨k, f, found, rfl⟩)
      · exact ⟨0, d, rfl, rfl⟩
      · exact ⟨k + 1, f, found, by rw [Nat.add_right_comm, Nat.add_assoc]⟩
    · rintro ⟨k, f, found, rfl⟩
      cases k with
      | zero =>
        cases found
        exact .inl rfl
      | succ k => exact .inr ⟨k, f, found, by rw [Nat.add_right_comm, Nat.add_assoc]⟩

def ofWaiter (i : Nat) (e : TimedEvent) : Bool := e.2.waiter? == some i

def ofDelivery (k : Nat) (e : TimedEvent) : Bool := e.2.delivery? == some k

theorem filter_ofWaiter_waiterEvents {i : Nat} {w : Waiter} (found : ws[i]? = some w)
    (first : Nat) :
    (waiterEvents first ws).filter (ofWaiter (first + i)) =
      [(w.instant, .arrive (first + i) w.timeoutMs),
        (w.deadline, .expire (first + i) w.timeoutMs)] := by
  induction ws generalizing first i with
  | nil => cases found
  | cons v ws ih =>
    cases i with
    | zero =>
      cases found
      have later : (waiterEvents (first + 1) ws).filter (ofWaiter first) = [] := by
        rw [List.filter_eq_nil_iff]
        intro e mem own
        obtain ⟨j, waiter, -, low, -⟩ := bounds_of_mem_waiterEvents mem
        rw [ofWaiter, waiter, beq_iff_eq, Option.some.injEq] at own
        omega
      have own (n m : Nat) : ofWaiter first (n, .arrive first m) = true ∧
          ofWaiter first (n, .expire first m) = true := by
        simp [ofWaiter, RaceEvent.waiter?]
      rw [Nat.add_zero, waiterEvents, List.filter_cons_of_pos (own _ _).1,
        List.filter_cons_of_pos (own _ _).2, later]
      rfl
    | succ i =>
      have other (n m : Nat) : ¬ofWaiter (first + (i + 1)) (n, .arrive first m) = true ∧
          ¬ofWaiter (first + (i + 1)) (n, .expire first m) = true := by
        simp [ofWaiter, RaceEvent.waiter?]
      have rest := ih found (first + 1)
      rw [Nat.add_right_comm, Nat.add_assoc] at rest
      rw [waiterEvents, List.filter_cons_of_neg (other _ _).1,
        List.filter_cons_of_neg (other _ _).2, rest]

theorem filter_ofDelivery_deliveryEvents {k : Nat} {d : Delivery} (found : ds[k]? = some d)
    (first : Nat) :
    (deliveryEvents first ds).filter (ofDelivery (first + k)) =
      [(d.instant, .deliver (first + k) d.token)] := by
  induction ds generalizing first k with
  | nil => cases found
  | cons f ds ih =>
    cases k with
    | zero =>
      cases found
      have later : (deliveryEvents (first + 1) ds).filter (ofDelivery first) = [] := by
        rw [List.filter_eq_nil_iff]
        intro e mem own
        obtain ⟨j, g, -, rfl⟩ := mem_deliveryEvents_iff.mp mem
        simp only [ofDelivery, RaceEvent.delivery?, beq_iff_eq, Option.some.injEq] at own
        omega
      have own (n : Nat) (t : String) : ofDelivery first (n, .deliver first t) = true := by
        simp [ofDelivery, RaceEvent.delivery?]
      rw [Nat.add_zero, deliveryEvents, List.filter_cons_of_pos (own _ _), later]
    | succ k =>
      have other (n : Nat) (t : String) :
          ¬ofDelivery (first + (k + 1)) (n, .deliver first t) = true := by
        simp [ofDelivery, RaceEvent.delivery?]
      have rest := ih found (first + 1)
      rw [Nat.add_right_comm, Nat.add_assoc] at rest
      rw [deliveryEvents, List.filter_cons_of_neg (other _ _), rest]

theorem schedule_perm (ws : List Waiter) (ds : List Delivery) :
    (schedule ws ds).Perm (waiterEvents 0 ws ++ deliveryEvents 0 ds) := List.mergeSort_perm _ _

private theorem le_trans' (a b c : TimedEvent) (first : decide (a.1 ≤ b.1) = true)
    (second : decide (b.1 ≤ c.1) = true) : decide (a.1 ≤ c.1) = true := by
  simp only [decide_eq_true_eq] at first second ⊢
  exact Nat.le_trans first second

private theorem le_total' (a b : TimedEvent) :
    (decide (a.1 ≤ b.1) || decide (b.1 ≤ a.1)) = true := by
  simpa using Nat.le_total a.1 b.1

theorem schedule_sorted (ws : List Waiter) (ds : List Delivery) :
    (schedule ws ds).Pairwise fun e f => e.1 ≤ f.1 := by
  simpa [schedule] using
    List.pairwise_mergeSort le_trans' le_total' (waiterEvents 0 ws ++ deliveryEvents 0 ds)

theorem mem_schedule_of_delivery {k : Nat} {d : Delivery} (found : ds[k]? = some d) :
    (d.instant, .deliver k d.token) ∈ schedule ws ds := by
  rw [(schedule_perm ws ds).mem_iff, List.mem_append]
  exact .inr (mem_deliveryEvents_iff.mpr ⟨k, d, found, by rw [Nat.zero_add]⟩)

theorem delivery_of_mem_schedule {e : TimedEvent} (mem : e ∈ schedule ws ds)
    (brings : e.2.delivery?.isSome) :
    ∃ k d, ds[k]? = some d ∧ e = (d.instant, .deliver k d.token) := by
  rw [(schedule_perm ws ds).mem_iff, List.mem_append] at mem
  rcases mem with mem | mem
  · obtain ⟨i, -, none, -⟩ := bounds_of_mem_waiterEvents mem
    rw [none] at brings
    cases brings
  · obtain ⟨k, d, found, rfl⟩ := mem_deliveryEvents_iff.mp mem
    exact ⟨k, d, found, by rw [Nat.zero_add]⟩

/-- The two events of a waiter divide the schedule in three parts. -/
theorem exists_split_of_waiter (ds : List Delivery) {i : Nat} {w : Waiter}
    (found : ws[i]? = some w) :
    ∃ before between after,
      schedule ws ds = before ++ (w.instant, .arrive i w.timeoutMs) ::
        (between ++ (w.deadline, .expire i w.timeoutMs) :: after) ∧
      (∀ e ∈ before, e.2.waiter? ≠ some i) ∧ (∀ e ∈ between, e.2.waiter? ≠ some i) ∧
      ∀ e ∈ after, e.2.waiter? ≠ some i := by
  have own := filter_ofWaiter_waiterEvents found 0
  rw [Nat.zero_add] at own
  have foreign : (deliveryEvents 0 ds).filter (ofWaiter i) = [] := by
    rw [List.filter_eq_nil_iff]
    intro e mem
    obtain ⟨k, d, -, rfl⟩ := mem_deliveryEvents_iff.mp mem
    exact nofun
  have all : (waiterEvents 0 ws ++ deliveryEvents 0 ds).filter (ofWaiter i) =
      [(w.instant, .arrive i w.timeoutMs), (w.deadline, .expire i w.timeoutMs)] := by
    rw [List.filter_append, own, foreign, List.append_nil]
  -- Sorting keeps the order of the two, also where the waiter does not wait at all.
  have kept : [(w.instant, RaceEvent.arrive i w.timeoutMs),
      (w.deadline, .expire i w.timeoutMs)].Sublist ((schedule ws ds).filter (ofWaiter i)) := by
    have sub := List.sublist_mergeSort le_trans' le_total'
      (by simp [Waiter.deadline]) (all ▸ List.filter_sublist)
    have again := sub.filter (ofWaiter i)
    rwa [List.filter_cons_of_pos (by simp [ofWaiter, RaceEvent.waiter?]),
      List.filter_cons_of_pos (by simp [ofWaiter, RaceEvent.waiter?])] at again
  have number := ((schedule_perm ws ds).filter (ofWaiter i)).length_eq
  rw [all] at number
  have two := (kept.eq_of_length number.symm).symm
  obtain ⟨before, rest, split, free, -, two⟩ := List.filter_eq_cons_iff.mp two
  obtain ⟨between, after, rfl, free', -, none⟩ := List.filter_eq_cons_iff.mp two
  rw [List.filter_eq_nil_iff] at none
  simp only [ofWaiter, beq_iff_eq] at free free' none
  exact ⟨before, between, after, split, free, free', none⟩

theorem exists_split_of_delivery (ws : List Waiter) {k : Nat} {d : Delivery}
    (found : ds[k]? = some d) :
    ∃ before after, schedule ws ds = before ++ (d.instant, .deliver k d.token) :: after ∧
      (∀ e ∈ before, e.2.delivery? ≠ some k) ∧ ∀ e ∈ after, e.2.delivery? ≠ some k := by
  have own := filter_ofDelivery_deliveryEvents found 0
  rw [Nat.zero_add] at own
  have foreign : (waiterEvents 0 ws).filter (ofDelivery k) = [] := by
    rw [List.filter_eq_nil_iff]
    intro e mem
    obtain ⟨i, -, none, -⟩ := bounds_of_mem_waiterEvents mem
    simp [ofDelivery, none]
  have one := (schedule_perm ws ds).filter (ofDelivery k)
  rw [List.filter_append, own, foreign, List.nil_append, List.perm_singleton] at one
  obtain ⟨before, after, split, free, -, none⟩ := List.filter_eq_cons_iff.mp one
  rw [List.filter_eq_nil_iff] at none
  simp only [ofDelivery, beq_iff_eq] at free none
  exact ⟨before, after, split, free, none⟩

def earliest? (ds : List Delivery) : Option Delivery := ds.argmin Delivery.instant

theorem instant_earliest_le {d e : Delivery} (first : earliest? ds = some d) (mem : e ∈ ds) :
    d.instant ≤ e.instant := List.le_of_mem_argmin mem first

theorem lt_of_lt_earliest {now : Nat} (late : ∀ d, earliest? ds = some d → now < d.instant) :
    ∀ d ∈ ds, now < d.instant := by
  intro e mem
  cases first : earliest? ds with
  | none =>
    rw [earliest?, List.argmin_eq_none] at first
    cases first ▸ mem
  | some d => exact Nat.lt_of_lt_of_le (late d first) (instant_earliest_le first mem)

theorem exists_getElem?_earliest {d : Delivery} (first : earliest? ds = some d) :
    ∃ k : Nat, ds[k]? = some d := List.mem_iff_getElem?.mp (List.argmin_mem first)

def broughtBy? (ds : List Delivery) (now : Nat) : Option String :=
  ((earliest? ds).filter fun d => d.instant ≤ now).map Delivery.token

theorem broughtBy?_of_le {d : Delivery} (first : earliest? ds = some d) {now : Nat}
    (inTime : d.instant ≤ now) : broughtBy? ds now = some d.token := by
  rw [broughtBy?, first, Option.filter_some, if_pos (decide_eq_true inTime), Option.map_some]

theorem broughtBy?_of_lt {now : Nat} (late : ∀ d, earliest? ds = some d → now < d.instant) :
    broughtBy? ds now = none := by
  have nothing : (earliest? ds).filter (fun d => d.instant ≤ now) = none := by
    rw [Option.filter_eq_none_iff]
    intro d first
    simpa using late d first
  rw [broughtBy?, nothing, Option.map_none]

theorem eq_of_instant_eq (apart : (ds.map Delivery.instant).Nodup) {j k : Nat} {d e : Delivery}
    (found : ds[j]? = some d) (found' : ds[k]? = some e) (same : d.instant = e.instant) :
    j = k := by
  have inside : j < (ds.map Delivery.instant).length := by
    rw [List.length_map]
    exact (List.getElem?_eq_some_iff.mp found).1
  refine (List.getElem?_inj inside apart).mp ?_
  rw [List.getElem?_map, List.getElem?_map, found, found', Option.map_some, Option.map_some, same]

section FirstToken

variable {es : List TimedEvent}

theorem exists_delivery_of_token? (part : es.Sublist (schedule ws ds)) {e : TimedEvent}
    (mem : e ∈ es) {t : String} (brings : e.2.token? = some t) :
    ∃ k d, ds[k]? = some d ∧ e = (d.instant, .deliver k d.token) := by
  refine delivery_of_mem_schedule (part.subset mem) ?_
  obtain ⟨n, _ | _ | _⟩ := e <;> first | rfl | cases brings

/-- In a part of the schedule that holds the earliest delivery, its token is the first. -/
theorem firstToken?_of_mem (apart : (ds.map Delivery.instant).Nodup)
    (part : es.Sublist (schedule ws ds)) {k : Nat} {d : Delivery} (found : ds[k]? = some d)
    (first : earliest? ds = some d) (mem : (d.instant, .deliver k d.token) ∈ es) :
    firstToken? es = some d.token := by
  cases token : firstToken? es with
  | none => cases List.findSome?_eq_none_iff.mp token _ mem
  | some t =>
    obtain ⟨before, e, after, rfl, brings, silent⟩ := List.findSome?_eq_some_iff.mp token
    obtain ⟨j, f, found', rfl⟩ := exists_delivery_of_token? part (by simp) brings
    -- The earliest delivery is not before the first event that brings a token, nor after it.
    have late : f.instant ≤ d.instant := by
      rcases List.mem_append.mp mem with early | here
      · cases silent _ early
      · rcases List.mem_cons.mp here with same | later
        · exact Nat.le_of_eq (congrArg Prod.fst same).symm
        · have sorted := (schedule_sorted ws ds).sublist part
          rw [List.pairwise_append, List.pairwise_cons] at sorted
          exact sorted.2.1.1 _ later
    have early := instant_earliest_le first (List.mem_of_getElem? found')
    obtain rfl := eq_of_instant_eq apart found found' (Nat.le_antisymm early late)
    cases found.symm.trans found'
    exact brings.symm

theorem firstToken?_eq_none (part : es.Sublist (schedule ws ds)) {bound : Nat}
    (within : ∀ e ∈ es, e.1 ≤ bound) (late : ∀ d ∈ ds, bound < d.instant) :
    firstToken? es = none := by
  rw [firstToken?, List.findSome?_eq_none_iff]
  intro e mem
  cases brings : e.2.token? with
  | none => rfl
  | some t =>
    obtain ⟨k, d, found, rfl⟩ := exists_delivery_of_token? part mem brings
    exact absurd (late d (List.mem_of_getElem? found)) (Nat.not_lt.mpr (within _ mem))

end FirstToken

end Race
end RuleFeed
