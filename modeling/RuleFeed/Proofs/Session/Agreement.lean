import RuleFeed.Proofs.Session.Settled

/-!
A promise through any sequence of requests, whole races included. What is settled stays so, every
later delivery is refused and every later wait is told the token, so two waits that succeed never
tell different tokens.
-/
namespace RuleFeed

inductive Request where
  | deliver (token : String)
  | wait (timeoutMs : Nat)
  | race (ws : List Waiter) (ds : List Delivery)

inductive Answer where
  | delivered (outcome : Except DeliveryError Unit)
  | waited (outcome : Except SessionTimeout String)

namespace Race

def answers (r : Race) : List Answer :=
  r.waits.map (fun a => .waited a.2) ++ r.deliveries.map fun a => .delivered a.2

/-- Whoever was told a token was told the one that is there. -/
def Honest (r : Race) : Prop :=
  ∀ a ∈ r.waits, ∀ token, a.2 = .ok token → r.promise.token = some token

theorem honest_wake {r : Race} (honest : r.Honest) : r.wake.Honest := by
  intro a mem t told
  rw [promise_wake]
  cases token : r.promise.token with
  | none =>
    simp only [wake, token] at mem
    exact token.symm.trans (honest a mem t told)
  | some s =>
    simp only [wake, token, List.mem_append, List.mem_map] at mem
    rcases mem with ⟨i, -, rfl⟩ | earlier
    · cases told
      rfl
    · exact token.symm.trans (honest a earlier t told)

theorem Honest.step {r : Race} (honest : r.Honest) (e : RaceEvent) : (r.step e).Honest := by
  cases e with
  | arrive i timeoutMs => exact honest_wake honest
  | deliver k token =>
    refine honest_wake fun a mem t told => ?_
    have settled := honest a mem t told
    rw [Promise.token_deliver, settled]
    rfl
  | expire i timeoutMs =>
    rw [Race.step]
    split
    · intro a mem t told
      rcases List.mem_cons.mp mem with rfl | earlier
      · cases told
      · exact honest a earlier t told
    · exact honest

theorem Honest.after {r : Race} (honest : r.Honest) (es : List TimedEvent) :
    (r.after es).Honest := by
  induction es generalizing r with
  | nil => exact honest
  | cons e es ih => exact ih (honest.step e.2)

theorem honest_run (p : Promise) (ws : List Waiter) (ds : List Delivery) :
    (run p ws ds).Honest := by
  rw [run_eq_after]
  have honest : (start p).Honest := List.forall_mem_nil _
  exact honest.after _

/-- A race at a settled promise: every delivery is refused, every wait is told the token. -/
structure Closed (t : String) (r : Race) : Prop where
  token : r.promise.token = some t
  waiting : r.waiting = []
  waits : ∀ a ∈ r.waits, a.2 = .ok t
  deliveries : ∀ a ∈ r.deliveries, a.2 = .error .alreadyDelivered

theorem Closed.step {t : String} {r : Race} (closed : r.Closed t) (e : RaceEvent) :
    (r.step e).Closed t := by
  obtain ⟨token, waiting, waits, deliveries⟩ := closed
  cases e with
  | arrive i timeoutMs =>
    simp only [Race.step, wake, token, waiting]
    exact ⟨token, rfl, List.forall_mem_cons.mpr ⟨rfl, waits⟩, deliveries⟩
  | deliver k other =>
    have refused : r.promise.deliver other = (.error .alreadyDelivered, r.promise) := by
      simp only [Promise.deliver, token]
    simp only [Race.step, wake, refused, token, waiting]
    exact ⟨token, rfl, waits, List.forall_mem_cons.mpr ⟨rfl, deliveries⟩⟩
  | expire i timeoutMs =>
    have nobody : ¬(r.waiting.contains i = true) := by simp [waiting]
    rw [Race.step, if_neg nobody]
    exact ⟨token, waiting, waits, deliveries⟩

theorem Closed.after {t : String} {r : Race} (closed : r.Closed t) (es : List TimedEvent) :
    (r.after es).Closed t := by
  induction es generalizing r with
  | nil => exact closed
  | cons e es ih => exact ih (closed.step e.2)

theorem closed_run {p : Promise} {t : String} (settled : p.token = some t) (ws : List Waiter)
    (ds : List Delivery) : (run p ws ds).Closed t := by
  rw [run_eq_after]
  have closed : (start p).Closed t :=
    ⟨settled, rfl, List.forall_mem_nil _, List.forall_mem_nil _⟩
  exact closed.after _

theorem token_of_waited {r : Race} (honest : r.Honest) {t : String}
    (told : .waited (.ok t) ∈ r.answers) : r.promise.token = some t := by
  simp only [answers, List.mem_append, List.mem_map, reduceCtorEq, and_false, exists_false,
    or_false, Answer.waited.injEq] at told
  obtain ⟨a, mem, told⟩ := told
  exact honest a mem t told

end Race

namespace Promise

def serve (p : Promise) : Request → List Answer × Promise
  | .deliver token => ([.delivered (p.deliver token).1], (p.deliver token).2)
  | .wait timeoutMs => ([.waited (p.wait timeoutMs)], p)
  | .race ws ds => ((Race.run p ws ds).answers, (Race.run p ws ds).promise)

def after (p : Promise) (requests : List Request) : Promise :=
  requests.foldl (fun p request => (p.serve request).2) p

def answers (p : Promise) : List Request → List Answer
  | [] => []
  | request :: requests => (p.serve request).1 ++ (p.serve request).2.answers requests

theorem serve_of_token {p : Promise} {t : String} (settled : p.token = some t)
    (request : Request) :
    (p.serve request).2.token = some t ∧ ∀ a ∈ (p.serve request).1,
      a = .waited (.ok t) ∨ a = .delivered (.error .alreadyDelivered) := by
  cases request with
  | deliver token => simp [serve, deliver, settled]
  | wait timeoutMs => simp [serve, wait, settled]
  | race ws ds =>
    have closed := Race.closed_run settled ws ds
    refine ⟨closed.token, fun a told => ?_⟩
    rcases List.mem_append.mp told with wait | delivery
    · obtain ⟨b, mem, rfl⟩ := List.mem_map.mp wait
      exact .inl (congrArg Answer.waited (closed.waits b mem))
    · obtain ⟨b, mem, rfl⟩ := List.mem_map.mp delivery
      exact .inr (congrArg Answer.delivered (closed.deliveries b mem))

theorem token_after_of_token {p : Promise} {t : String} (settled : p.token = some t)
    (requests : List Request) : (p.after requests).token = some t := by
  induction requests generalizing p with
  | nil => exact settled
  | cons request requests ih => exact ih (serve_of_token settled request).1

theorem answers_of_token {p : Promise} {t : String} (settled : p.token = some t)
    (requests : List Request) : ∀ a ∈ p.answers requests,
      a = .waited (.ok t) ∨ a = .delivered (.error .alreadyDelivered) := by
  induction requests generalizing p with
  | nil => exact nofun
  | cons request requests ih =>
    have ⟨settled', told⟩ := serve_of_token settled request
    exact List.forall_mem_append.mpr ⟨told, ih settled'⟩

theorem token_of_waited (p : Promise) {request : Request} {t : String}
    (told : .waited (.ok t) ∈ (p.serve request).1) : (p.serve request).2.token = some t := by
  cases request with
  | deliver token => simp [serve] at told
  | wait timeoutMs =>
    cases token : p.token with
    | none => simp [serve, wait, token] at told
    | some s =>
      simp only [serve, wait, token, List.mem_singleton, Answer.waited.injEq, Except.ok.injEq]
        at told
      rw [serve, token, told]
  | race ws ds => exact Race.token_of_waited (Race.honest_run p ws ds) told

/-- A token that any wait was told is the one that is there in the end. -/
theorem token_after_of_waited (p : Promise) {requests : List Request} {t : String}
    (told : .waited (.ok t) ∈ p.answers requests) : (p.after requests).token = some t := by
  induction requests generalizing p with
  | nil => cases told
  | cons request requests ih =>
    rcases List.mem_append.mp told with here | later
    · exact token_after_of_token (p.token_of_waited here) requests
    · exact ih _ later

end Promise

/-- A race settles a promise at most once and for good. -/
theorem Race.run_settles_once (p : Promise) (ws : List Waiter) (ds : List Delivery)
    (apart : (ds.map Delivery.instant).Nodup)
    (clear : ∀ d ∈ ds, ∀ w ∈ ws, d.instant ≠ w.deadline) :
    Race.Settled p ws ds (Race.run p ws ds) ∧
      (∀ token, (Race.run p ws ds).promise.token = some token → ∀ requests,
        ((Race.run p ws ds).promise.after requests).token = some token ∧
        ∀ a ∈ (Race.run p ws ds).promise.answers requests,
          a = .waited (.ok token) ∨ a = .delivered (.error .alreadyDelivered)) ∧
      ∀ requests s t, .waited (.ok s) ∈ p.answers requests →
        .waited (.ok t) ∈ p.answers requests → s = t := by
  refine ⟨Race.settled_run p apart clear, fun token settled requests => ?_,
    fun requests s t first second => ?_⟩
  · exact ⟨Promise.token_after_of_token settled requests,
      Promise.answers_of_token settled requests⟩
  · have one := p.token_after_of_waited first
    have two := p.token_after_of_waited second
    exact Option.some.inj (one.symm.trans two)

/-- Two waiters and two deliveries, the first of them an empty token; and a wait that is reported
by the last 64 bits of its length. -/
theorem Race.run_settles_once_empty_token :
    let r := Race.run .unsettled [⟨0, 10⟩, ⟨5, 2⟩] [⟨9, "late"⟩, ⟨8, ""⟩]
    r.delivery? 0 = some (.error .alreadyDelivered) ∧ r.delivery? 1 = some (.ok ()) ∧
      r.promise.token = some "" ∧ r.wait? 0 = r.promise.token.map .ok ∧
      r.wait? 1 = some (.error ⟨2⟩) ∧
      (r.promise.after [.deliver "again", .race [⟨1, 0⟩] [⟨0, "other"⟩]]).token = some "" ∧
      (Race.run .unsettled [⟨3, 0x10000000000000007⟩] []).wait? 0 = some (.error ⟨7⟩) := by
  intro r
  have first : earliest? [⟨9, "late"⟩, ⟨8, ""⟩] = some ⟨8, ""⟩ := by decide
  obtain ⟨outcome, kept, -⟩ := Race.run_settles_once .unsettled [⟨0, 10⟩, ⟨5, 2⟩]
    [⟨9, "late"⟩, ⟨8, ""⟩] (by decide) (by decide)
  have token : r.promise.token = some "" := outcome.token.trans (by rw [first]; rfl)
  obtain ⟨t, settled, told⟩ := outcome.wait_ok (i := 0) rfl (.inr ⟨_, first, by decide⟩)
  refine ⟨(outcome.delivery (k := 0) rfl).trans (by decide),
    (outcome.delivery (k := 1) rfl).trans (by decide), token, ?_,
    outcome.wait_error (i := 1) rfl ?_, (kept _ token _).1, ?_⟩
  · rw [settled]
    exact told
  · rintro (settled | ⟨d, first', early⟩)
    · cases settled
    · cases first.symm.trans first'
      exact absurd early (by decide)
  · have ⟨alone, _⟩ := Race.run_settles_once .unsettled [⟨3, 0x10000000000000007⟩] []
      (by decide) (List.forall_mem_nil _)
    refine alone.wait_error (i := 0) rfl ?_
    rintro (settled | ⟨d, none, -⟩)
    · cases settled
    · cases none

end RuleFeed
