import RuleFeed.Proofs.Session.Race

/-!
What a race comes to. The earliest delivery settles the promise, unless a token was there before;
whoever waits until then or longer is told that token, all others that their time is up.
-/
namespace RuleFeed

namespace Race

variable {ws : List Waiter} {ds : List Delivery}

section Split

variable {before later : List TimedEvent} {e f : TimedEvent}

theorem instant_le_of_split (split : schedule ws ds = before ++ e :: later) (mem : f ∈ before) :
    f.1 ≤ e.1 := by
  have sorted := schedule_sorted ws ds
  rw [split, List.pairwise_append] at sorted
  exact sorted.2.2 f mem e List.mem_cons_self

theorem mem_of_instant_lt (split : schedule ws ds = before ++ e :: later)
    (mem : f ∈ schedule ws ds) (early : f.1 < e.1) : f ∈ before := by
  have sorted := schedule_sorted ws ds
  rw [split, List.pairwise_append, List.pairwise_cons] at sorted
  rw [split, List.mem_append, List.mem_cons] at mem
  rcases mem with here | rfl | late
  · exact here
  · omega
  · have := sorted.2.1.1 f late
    omega

end Split

theorem firstToken?_of_wait (apart : (ds.map Delivery.instant).Nodup) {i : Nat} {w : Waiter}
    (clear : ∀ d ∈ ds, d.instant ≠ w.deadline) {before between later : List TimedEvent}
    (split : schedule ws ds = before ++ (w.instant, .arrive i w.timeoutMs) ::
      (between ++ (w.deadline, .expire i w.timeoutMs) :: later)) :
    firstToken? (before ++ between) = broughtBy? ds w.deadline := by
  have part : (before ++ between).Sublist (schedule ws ds) := by
    rw [split]
    exact (List.Sublist.refl before).append ((List.sublist_append_left _ _).cons _)
  have upTo : schedule ws ds = (before ++ (w.instant, .arrive i w.timeoutMs) :: between) ++
      (w.deadline, .expire i w.timeoutMs) :: later := by
    rw [split, List.append_assoc, List.cons_append]
  have within : ∀ e ∈ before ++ between, e.1 ≤ w.deadline := by
    intro e mem
    refine instant_le_of_split upTo (List.mem_append.mpr ?_)
    exact (List.mem_append.mp mem).imp_right (List.mem_cons_of_mem _)
  by_cases inTime : ∃ d, earliest? ds = some d ∧ d.instant ≤ w.deadline
  · obtain ⟨d, first, le⟩ := inTime
    obtain ⟨k, found⟩ := exists_getElem?_earliest first
    have early := Nat.lt_of_le_of_ne le (clear d (List.mem_of_getElem? found))
    have mem := mem_of_instant_lt upTo (mem_schedule_of_delivery found) early
    simp only [List.mem_append, List.mem_cons, Prod.mk.injEq, reduceCtorEq, and_false,
      false_or] at mem
    rw [firstToken?_of_mem apart part found first (List.mem_append.mpr mem),
      broughtBy?_of_le first le]
  · have late (d : Delivery) (first : earliest? ds = some d) : w.deadline < d.instant :=
      Nat.lt_of_not_le fun le => inTime ⟨d, first, le⟩
    rw [firstToken?_eq_none part within (lt_of_lt_earliest late), broughtBy?_of_lt late]

theorem firstToken?_of_delivery (apart : (ds.map Delivery.instant).Nodup) {k : Nat} {d : Delivery}
    (found : ds[k]? = some d) {before later : List TimedEvent}
    (split : schedule ws ds = before ++ (d.instant, .deliver k d.token) :: later)
    (free : ∀ e ∈ before, e.2.delivery? ≠ some k) :
    firstToken? before = none ↔ earliest? ds = some d := by
  have part : before.Sublist (schedule ws ds) := split ▸ List.sublist_append_left _ _
  constructor
  · intro nothing
    cases first : earliest? ds with
    | none =>
      rw [earliest?, List.argmin_eq_none] at first
      cases first ▸ found
    | some f =>
      obtain ⟨j, found'⟩ := exists_getElem?_earliest first
      have le := instant_earliest_le first (List.mem_of_getElem? found)
      rcases Nat.lt_or_eq_of_le le with early | same
      · have mem := mem_of_instant_lt split (mem_schedule_of_delivery found') early
        cases nothing.symm.trans (firstToken?_of_mem apart part found' first mem)
      · cases eq_of_instant_eq apart found' found same
        exact found'.symm.trans found
  · intro first
    rw [firstToken?, List.findSome?_eq_none_iff]
    intro e mem
    cases brings : e.2.token? with
    | none => rfl
    | some t =>
      obtain ⟨j, f, found', rfl⟩ := exists_delivery_of_token? part mem brings
      have le := instant_le_of_split split mem
      have ge := instant_earliest_le first (List.mem_of_getElem? found')
      cases eq_of_instant_eq apart found' found (Nat.le_antisymm le ge)
      exact absurd rfl (free _ mem)

theorem view_run (p : Promise) (apart : (ds.map Delivery.instant).Nodup) {i : Nat} {w : Waiter}
    (clear : ∀ d ∈ ds, d.instant ≠ w.deadline) (found : ws[i]? = some w) :
    (run p ws ds).view i =
      ([], [(i, (Promise.mk (p.token.or (broughtBy? ds w.deadline))).wait w.timeoutMs)]) := by
  obtain ⟨before, between, later, split, free, free', free''⟩ :=
    exists_split_of_waiter ds found
  rw [run_eq_after, split, view_after_of_split p free free' free'',
    firstToken?_of_wait apart clear split]

theorem view_run_of_le (p : Promise) {i : Nat} (outside : ws.length ≤ i) :
    (run p ws ds).view i = ([], []) := by
  have others : ∀ e ∈ schedule ws ds, e.2.waiter? ≠ some i := by
    intro e mem own
    rw [(schedule_perm ws ds).mem_iff, List.mem_append] at mem
    rcases mem with mem | mem
    · obtain ⟨j, waiter, -, -, high⟩ := bounds_of_mem_waiterEvents mem
      cases waiter.symm.trans own
      omega
    · obtain ⟨k, d, -, rfl⟩ := mem_deliveryEvents_iff.mp mem
      cases own
  rw [run_eq_after, view_after_of_ne (calm_start p) others]
  exact View.woken_nil _ _

theorem outcomes_run (p : Promise) (apart : (ds.map Delivery.instant).Nodup) {k : Nat}
    {d : Delivery} (found : ds[k]? = some d) :
    (run p ws ds).outcomes k = [(k, if p.token = none ∧ earliest? ds = some d then .ok ()
      else .error .alreadyDelivered)] := by
  obtain ⟨before, later, split, free, free'⟩ := exists_split_of_delivery ws found
  have first := firstToken?_of_delivery apart found split free
  rw [run_eq_after, split, outcomes_after_of_split p free free']
  cases token : p.token with
  | some t => rfl
  | none =>
    cases there : firstToken? before with
    | none => simp [first.mp there, Promise.deliver]
    | some t =>
      have other : earliest? ds ≠ some d := fun same => by cases there.symm.trans (first.mpr same)
      simp [other, Promise.deliver]

theorem outcomes_run_of_le (p : Promise) {k : Nat} (outside : ds.length ≤ k) :
    (run p ws ds).outcomes k = [] := by
  have others : ∀ e ∈ schedule ws ds, e.2.delivery? ≠ some k := by
    intro e mem own
    obtain ⟨j, d, found, rfl⟩ := delivery_of_mem_schedule mem (by rw [own]; rfl)
    cases own
    rw [List.getElem?_eq_none outside] at found
    cases found
  rw [run_eq_after, outcomes_after_of_ne others]
  rfl

section Answers

variable {α : Type} {answers : List (Nat × α)}

theorem lookup_of_filter {i : Nat} {x : α}
    (one : (answers.filter fun a => a.1 == i) = [(i, x)]) : answers.lookup i = some x := by
  obtain ⟨before, after, rfl, none, -, -⟩ := List.filter_eq_cons_iff.mp one
  refine List.lookup_eq_some_iff.mpr ⟨before, after, rfl, fun a mem => ?_⟩
  have other := none a mem
  rw [beq_iff_eq] at other
  simpa using Ne.symm other

theorem keys_perm_range {n : Nat}
    (inside : ∀ i < n, ∃ x, (answers.filter fun a => a.1 == i) = [(i, x)])
    (outside : ∀ i, n ≤ i → (answers.filter fun a => a.1 == i) = []) :
    (answers.map Prod.fst).Perm (List.range n) := by
  rw [List.perm_iff_count]
  intro i
  rw [List.count_range, List.count, List.countP_map, List.countP_eq_length_filter]
  have own : (answers.filter ((· == i) ∘ Prod.fst)) = answers.filter fun a => a.1 == i := rfl
  rw [own]
  by_cases here : i < n
  · obtain ⟨x, one⟩ := inside i here
    rw [one, if_pos here]
    rfl
  · rw [outside i (Nat.le_of_not_lt here), if_neg here]
    rfl

end Answers

/-- What a race comes to: who settles the promise, and what everyone is told. -/
structure Settled (p : Promise) (ws : List Waiter) (ds : List Delivery) (r : Race) : Prop where
  token : r.promise.token = p.token.or ((earliest? ds).map Delivery.token)
  waits_once : (r.waits.map Prod.fst).Perm (List.range ws.length)
  deliveries_once : (r.deliveries.map Prod.fst).Perm (List.range ds.length)
  delivery {k : Nat} {d : Delivery} : ds[k]? = some d → r.delivery? k =
    some (if p.token = none ∧ earliest? ds = some d then .ok () else .error .alreadyDelivered)
  wait_ok {i : Nat} {w : Waiter} : ws[i]? = some w →
    (p.token.isSome ∨ ∃ d, earliest? ds = some d ∧ d.instant ≤ w.deadline) →
      ∃ token, r.promise.token = some token ∧ r.wait? i = some (.ok token)
  wait_error {i : Nat} {w : Waiter} : ws[i]? = some w →
    ¬(p.token.isSome ∨ ∃ d, earliest? ds = some d ∧ d.instant ≤ w.deadline) →
      r.wait? i = some (.error ⟨.ofNat w.timeoutMs⟩)

section Run

variable (p : Promise) (apart : (ds.map Delivery.instant).Nodup)
  (clear : ∀ d ∈ ds, ∀ w ∈ ws, d.instant ≠ w.deadline)
include apart

theorem token_run : (run p ws ds).promise.token =
    p.token.or ((earliest? ds).map Delivery.token) := by
  rw [run_eq_after, token_after]
  refine congrArg p.token.or ?_
  cases first : earliest? ds with
  | none =>
    rw [Option.map_none, firstToken?, List.findSome?_eq_none_iff]
    intro e mem
    cases brings : e.2.token? with
    | none => rfl
    | some t =>
      obtain ⟨k, d, found, -⟩ := exists_delivery_of_token? (List.Sublist.refl _) mem brings
      rw [earliest?, List.argmin_eq_none] at first
      cases first ▸ List.mem_of_getElem? found
  | some d =>
    obtain ⟨k, found⟩ := exists_getElem?_earliest first
    exact firstToken?_of_mem apart (List.Sublist.refl _) found first
      (mem_schedule_of_delivery found)

include clear

theorem waits_run {i : Nat} {w : Waiter} (found : ws[i]? = some w) :
    (run p ws ds).wait? i =
      some ((Promise.mk (p.token.or (broughtBy? ds w.deadline))).wait w.timeoutMs) :=
  lookup_of_filter (congrArg Prod.snd
    (view_run p apart (fun d mem => clear d mem w (List.mem_of_getElem? found)) found))

theorem settled_run : Settled p ws ds (run p ws ds) where
  token := token_run p apart
  waits_once := by
    refine keys_perm_range (fun i inside => ?_) fun i outside =>
      congrArg Prod.snd (view_run_of_le p outside)
    have found := List.getElem?_eq_getElem inside
    exact ⟨_, congrArg Prod.snd
      (view_run p apart (fun d mem => clear d mem _ (List.getElem_mem inside)) found)⟩
  deliveries_once := by
    refine keys_perm_range (fun k inside => ?_) fun k outside => outcomes_run_of_le p outside
    exact ⟨_, outcomes_run p apart (List.getElem?_eq_getElem inside)⟩
  delivery found := lookup_of_filter (outcomes_run p apart found)
  wait_ok {i w} found inTime := by
    rw [token_run p apart, waits_run p apart clear found]
    cases token : p.token with
    | some t => exact ⟨t, rfl, rfl⟩
    | none =>
      obtain settled | ⟨d, first, le⟩ := inTime
      · rw [token] at settled
        cases settled
      · refine ⟨d.token, ?_, ?_⟩
        · rw [first]
          rfl
        · rw [broughtBy?_of_le first le]
          rfl
  wait_error {i w} found late := by
    rw [not_or, Option.not_isSome_iff_eq_none] at late
    have absent := broughtBy?_of_lt fun d first =>
      Nat.lt_of_not_le fun le => late.2 ⟨d, first, le⟩
    rw [waits_run p apart clear found, late.1, absent]
    rfl

end Run

end Race
end RuleFeed
