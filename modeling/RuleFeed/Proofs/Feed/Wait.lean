import RuleFeed.Proofs.Feed.Readiness

/-!
How a wait for the token ends, by the instants of a schedule. The wait ends with the first delivery
if that is due by the deadline, at its instant or at once if it came before the wait, and at the
deadline otherwise. In either case the identity has then had exactly the updates that were due, and
the others are still ahead.
-/
namespace RuleFeed

open Gate

namespace Schedule

/-- No two updates are due at one instant, and the earlier is listed first. -/
def Ordered (s : Schedule) : Prop := (s.map Prod.fst).Pairwise (· < ·)

instance (s : Schedule) : Decidable s.Ordered :=
  inferInstanceAs (Decidable ((s.map Prod.fst).Pairwise (· < ·)))

def due (s : Schedule) (now : Nat) : Schedule := s.filter fun u => u.1 ≤ now

def ahead (s : Schedule) (now : Nat) : Schedule := s.filter fun u => now < u.1

variable {s : Schedule} {u : Nat × Update} {now later d : Nat} {token : String}

theorem ordered_cons : Ordered (u :: s) ↔ (∀ v ∈ s, u.1 < v.1) ∧ Ordered s := by
  rw [Ordered, List.map_cons, List.pairwise_cons, List.forall_mem_map, Ordered]

theorem due_cons_of_le (le : u.1 ≤ now) : due (u :: s) now = u :: s.due now :=
  List.filter_cons_of_pos (by simpa using le)

theorem ahead_cons_of_le (le : u.1 ≤ now) : ahead (u :: s) now = s.ahead now :=
  List.filter_cons_of_neg (by simpa using le)

theorem due_eq_nil (after : ∀ v ∈ s, now < v.1) : s.due now = [] :=
  List.filter_eq_nil_iff.mpr fun v mem => by simpa using after v mem

theorem ahead_eq_self (after : ∀ v ∈ s, now < v.1) : s.ahead now = s :=
  List.filter_eq_self.mpr fun v mem => by simpa using after v mem

theorem ordered_ahead (ordered : s.Ordered) (now : Nat) : (s.ahead now).Ordered :=
  List.Pairwise.sublist (List.filter_sublist.map Prod.fst) ordered

theorem Ordered.due_append_ahead (ordered : s.Ordered) (now : Nat) :
    s.due now ++ s.ahead now = s := by
  induction s with
  | nil => rfl
  | cons u s ih =>
    obtain ⟨first, rest⟩ := ordered_cons.mp ordered
    by_cases past : u.1 ≤ now
    · rw [due_cons_of_le past, ahead_cons_of_le past, List.cons_append, ih rest]
    · have after : ∀ v ∈ u :: s, now < v.1 :=
        List.forall_mem_cons.mpr ⟨by omega, fun v mem => by have := first v mem; omega⟩
      rw [due_eq_nil after, ahead_eq_self after, List.nil_append]

theorem Ordered.due_eq (ordered : s.Ordered) (le : now ≤ later) :
    s.due later = s.due now ++ (s.ahead now).due later := by
  have before : (s.due now).due later = s.due now := by
    refine List.filter_eq_self.mpr fun v mem => ?_
    have past := (List.mem_filter.mp mem).2
    simp only [decide_eq_true_eq] at past ⊢
    omega
  calc s.due later = (s.due now ++ s.ahead now).due later := by rw [ordered.due_append_ahead]
    _ = (s.due now).due later ++ (s.ahead now).due later := List.filter_append _ _
    _ = s.due now ++ (s.ahead now).due later := by rw [before]

theorem ahead_ahead (le : now ≤ later) : (s.ahead now).ahead later = s.ahead later := by
  rw [ahead, ahead, List.filter_filter, ahead]
  refine List.filter_congr fun v _ => ?_
  have both : later < v.1 → now < v.1 := fun after => by omega
  simpa using both

theorem firstDelivery?_append (s t : Schedule) :
    firstDelivery? (updates (s ++ t)) =
      (firstDelivery? (updates s)).or (firstDelivery? (updates t)) := by
  rw [firstDelivery?, updates, List.map_append, List.findSome?_append]
  rfl

theorem firstDelivery?_cons (u : Nat × Update) (s : Schedule) :
    firstDelivery? (updates (u :: s)) =
      (u.2.token?.map fun token => (u.1, token)).or (firstDelivery? (updates s)) := by
  rw [← List.singleton_append, firstDelivery?_append]
  exact congrArg (Option.or · _) List.findSome?_singleton

theorem mem_of_firstDelivery (delivered : firstDelivery? (updates s) = some (d, token)) :
    (d, .deliver token) ∈ s := by
  obtain ⟨⟨instant, u⟩, mem, same⟩ := List.mem_map.mp (exists_call_of_firstDelivery delivered)
  cases same
  exact mem

/-- What was delivered by an instant is the first delivery, if that was due by then. -/
theorem Ordered.firstDelivery?_due (ordered : s.Ordered) (now : Nat) :
    firstDelivery? (updates (s.due now)) =
      (firstDelivery? (updates s)).filter fun delivery => delivery.1 ≤ now := by
  have split := firstDelivery?_append (s.due now) (s.ahead now)
  rw [ordered.due_append_ahead] at split
  rw [split]
  cases past : firstDelivery? (updates (s.due now)) with
  | some delivery =>
    have le := (List.mem_filter.mp (mem_of_firstDelivery past)).2
    rw [Option.some_or, Option.filter_some, if_pos le]
  | none =>
    refine (Option.filter_eq_none_iff.mpr fun delivery next => ?_).symm
    rw [Option.none_or] at next
    have after := (List.mem_filter.mp (mem_of_firstDelivery next)).2
    simpa using after

theorem Ordered.firstDelivery?_ahead (ordered : s.Ordered)
    (late : ∀ d token, firstDelivery? (updates s) = some (d, token) → now < d) :
    firstDelivery? (updates (s.ahead now)) = firstDelivery? (updates s) := by
  have split := firstDelivery?_append (s.due now) (s.ahead now)
  have nothing : firstDelivery? (updates (s.due now)) = none := by
    rw [ordered.firstDelivery?_due, Option.filter_eq_none_iff]
    rintro ⟨d, token⟩ first
    simpa using late d token first
  rw [ordered.due_append_ahead, nothing, Option.none_or] at split
  exact split.symm

end Schedule

namespace Identity

open Schedule

def updated (i : Identity) (s : Schedule) : Identity := s.foldl (fun i u => i.update u.2) i

def asOf (i : Identity) (s : Schedule) (now : Nat) : Identity := i.updated (s.due now)

variable {i : Identity} {s : Schedule} {u : Nat × Update} {now deadline timeoutMs d : Nat}
  {token : String}

theorem facts_updated (i : Identity) (s : Schedule) : (i.updated s).facts = i.facts := by
  induction s generalizing i with
  | nil => rfl
  | cons u s ih => exact (ih (i.update u.2)).trans (facts_update i u.2)

theorem tenantId_updated (i : Identity) (s : Schedule) :
    (i.updated s).tenantId = lastTenant i.tenantId (updates s) := by
  induction s using List.reverseRecOn with
  | nil => rfl
  | append_singleton s u ih =>
    rw [updated, List.foldl_append, ← updated, updates, List.map_append, List.map_singleton,
      lastTenant_snoc, ← updates, ← ih]
    exact tenantId_update (i.updated s) u.2

theorem token_updated (i : Identity) (s : Schedule) :
    (i.updated s).session.token =
      i.session.token.or ((firstDelivery? (updates s)).map Prod.snd) := by
  induction s generalizing i with
  | nil => exact Option.or_none.symm
  | cons u s ih =>
    have next : (i.updated (u :: s)) = (i.update u.2).updated s := rfl
    rw [next, ih, token_update, firstDelivery?_cons]
    cases i.session.token <;> cases u.2.token? <;> rfl

theorem facts_asOf (i : Identity) (s : Schedule) (now : Nat) : (i.asOf s now).facts = i.facts :=
  facts_updated i _

theorem tenantId_asOf (i : Identity) (s : Schedule) (now : Nat) :
    (i.asOf s now).tenantId = tenantAt i.tenantId (updates s) now := by
  rw [asOf, tenantId_updated, tenantAt, updates, updates, List.filter_map]
  rfl

theorem asOf_cons_of_le (le : u.1 ≤ now) : i.asOf (u :: s) now = (i.update u.2).asOf s now := by
  rw [asOf, due_cons_of_le le]
  rfl

theorem asOf_eq_self (after : ∀ v ∈ s, now < v.1) : i.asOf s now = i := by
  rw [asOf, due_eq_nil after]
  rfl

theorem asOf_asOf (ordered : s.Ordered) {later : Nat} (le : now ≤ later) :
    (i.asOf s now).asOf (s.ahead now) later = i.asOf s later := by
  rw [asOf, asOf, asOf, ordered.due_eq le, updated, updated, updated, List.foldl_append]

theorem awaitUntil_of_late (ordered : s.Ordered) (unsettled : i.session.token = none)
    (late : ∀ d token, firstDelivery? (updates s) = some (d, token) → deadline < d) :
    i.awaitUntil deadline timeoutMs s =
      ⟨.error (.after timeoutMs), i.asOf s deadline, s.ahead deadline⟩ := by
  induction s generalizing i with
  | nil =>
    rw [awaitUntil, Promise.wait, unsettled]
    rfl
  | cons u s ih =>
    obtain ⟨first, rest⟩ := ordered_cons.mp ordered
    rw [awaitUntil]
    simp only [unsettled]
    by_cases past : u.1 ≤ deadline
    · have silent : u.2.token? = none := by
        cases brings : u.2.token? with
        | none => rfl
        | some token =>
          have now := late u.1 token (by rw [firstDelivery?_cons, brings]; rfl)
          omega
      have still : (i.update u.2).session.token = none := by
        rw [token_update, unsettled, silent]
        rfl
      have later : firstDelivery? (updates (u :: s)) = firstDelivery? (updates s) := by
        rw [firstDelivery?_cons, silent]
        rfl
      rw [later] at late
      rw [if_pos past, ih rest still late, asOf_cons_of_le past, ahead_cons_of_le past]
    · have after : ∀ v ∈ u :: s, deadline < v.1 :=
        List.forall_mem_cons.mpr ⟨by omega, fun v mem => by have := first v mem; omega⟩
      rw [if_neg past, asOf_eq_self after, ahead_eq_self after]

theorem awaitUntil_of_delivered (ordered : s.Ordered) (unsettled : i.session.token = none)
    (delivered : firstDelivery? (updates s) = some (d, token)) (inTime : d ≤ deadline) :
    i.awaitUntil deadline timeoutMs s = ⟨.ok token, i.asOf s d, s.ahead d⟩ := by
  induction s generalizing i with
  | nil => cases delivered
  | cons u s ih =>
    obtain ⟨first, rest⟩ := ordered_cons.mp ordered
    rw [firstDelivery?_cons] at delivered
    rw [awaitUntil]
    simp only [unsettled]
    cases brings : u.2.token? with
    | some t =>
      rw [brings] at delivered
      cases delivered
      have settled : (i.update u.2).session.token = some token := by
        rw [token_update, unsettled, brings]
        rfl
      rw [if_pos inTime, awaitUntil_of_token settled, asOf_cons_of_le (Nat.le_refl _),
        asOf_eq_self first, ahead_cons_of_le (Nat.le_refl _), ahead_eq_self first]
    | none =>
      rw [brings] at delivered
      have soon : u.1 ≤ d := Nat.le_of_lt (first _ (mem_of_firstDelivery delivered))
      have still : (i.update u.2).session.token = none := by
        rw [token_update, unsettled, brings]
        rfl
      rw [if_pos (Nat.le_trans soon inTime), ih rest still delivered, asOf_cons_of_le soon,
        ahead_cons_of_le soon]

theorem token_asOf (ordered : s.Ordered) (unsettled : i.session.token = none) (now : Nat) :
    (i.asOf s now).session.token =
      ((firstDelivery? (updates s)).filter fun delivery => delivery.1 ≤ now).map Prod.snd := by
  rw [asOf, token_updated, unsettled, Option.none_or, ordered.firstDelivery?_due]

theorem token_asOf_of_late (ordered : s.Ordered) (unsettled : i.session.token = none)
    (late : ∀ d token, firstDelivery? (updates s) = some (d, token) → now < d) :
    (i.asOf s now).session.token = none := by
  rw [token_asOf ordered unsettled, Option.map_eq_none_iff, Option.filter_eq_none_iff]
  rintro ⟨d, token⟩ first
  simpa using late d token first

variable {begun : Nat}

theorem await_of_late (ordered : s.Ordered) (unsettled : i.session.token = none)
    (late : ∀ d token, firstDelivery? (updates s) = some (d, token) → begun + timeoutMs < d) :
    (i.asOf s begun).await begun timeoutMs (s.ahead begun) =
      ⟨.error (.after timeoutMs), i.asOf s (begun + timeoutMs), s.ahead (begun + timeoutMs)⟩ := by
  have after (d : Nat) (token : String) (first : firstDelivery? (updates s) = some (d, token)) :
      begun < d := by
    have := late d token first
    omega
  have same := ordered.firstDelivery?_ahead after
  rw [await, awaitUntil_of_late (ordered_ahead ordered begun)
    (token_asOf_of_late ordered unsettled after) (same ▸ late),
    asOf_asOf ordered (Nat.le_add_right _ _), ahead_ahead (Nat.le_add_right _ _)]

theorem await_of_delivered (ordered : s.Ordered) (unsettled : i.session.token = none)
    (delivered : firstDelivery? (updates s) = some (d, token)) (inTime : d ≤ begun + timeoutMs) :
    (i.asOf s begun).await begun timeoutMs (s.ahead begun) =
      ⟨.ok token, i.asOf s (max begun d), s.ahead (max begun d)⟩ := by
  by_cases before : d ≤ begun
  · have settled : (i.asOf s begun).session.token = some token := by
      rw [token_asOf ordered unsettled, delivered, Option.filter_some,
        if_pos (decide_eq_true before)]
      rfl
    rw [await, awaitUntil_of_token settled, Nat.max_eq_left before]
  · have after : ∀ d' token', firstDelivery? (updates s) = some (d', token') → begun < d' := by
      intro d' token' first
      rw [delivered] at first
      cases first
      omega
    have next := (ordered.firstDelivery?_ahead after).trans delivered
    have le : begun ≤ d := by omega
    rw [await, awaitUntil_of_delivered (ordered_ahead ordered begun)
      (token_asOf_of_late ordered unsettled after) next inTime, asOf_asOf ordered le,
      ahead_ahead le, Nat.max_eq_right le]

end Identity
end RuleFeed
