import RuleFeed.Proofs.Feed.Start

/-!
Many starts at one identity and one transport, on one clock. A start whose settings are valid
waits for the session token; the delivery of the token lets all go on who wait, in an order that
nothing prescribes, and a start whose time is up ends. Each start that has ended is kept with what
it added to the transport. One start alone ends as `FeedSettings.start` says.
-/
namespace RuleFeed

namespace Update

def token? : Update → Option String
  | .setTenant _ => none
  | .setCid _ => none
  | .deliver token => some token

def tenant? : Update → Option String
  | .setTenant tenantId => some tenantId
  | .setCid _ => none
  | .deliver _ => none

end Update

namespace Identity

theorem token_update (i : Identity) (u : Update) :
    (i.update u).session.token = i.session.token.or u.token? := by
  cases u with
  | setTenant tenantId => exact (Option.or_none).symm
  | setCid cid => exact (Option.or_none).symm
  | deliver token =>
    rw [update, deliver, Promise.token_deliver]
    cases i.session.token <;> rfl

theorem tenantId_update (i : Identity) (u : Update) :
    (i.update u).tenantId = u.tenant?.getD i.tenantId := by
  cases u <;> rfl

end Identity

/-- How a start can go on from the token, with the sessions and watches that it adds: no session
is opened, a subscription is refused, or all are granted. -/
inductive Opened (config : SessionConfig) (all : List Watch) :
    Except FeedError FeedHandle → List SessionConfig → List Watch → Prop where
  | refused (e : TransportError) : Opened config all (.error (.sessionCreate e)) [] []
  | cut {watches : List Watch} (e : FeedError) (before : watches <+: all) :
    Opened config all (.error e) [config] watches
  | complete : Opened config all (.ok ⟨config, all⟩) [config] all

theorem FeedSettings.opened_openFeed (s : FeedSettings) (host app token : String)
    (state : FeedState) :
    (s.openFeed host app token state).2.identity = state.identity ∧
    ∃ sessions watches,
      (s.openFeed host app token state).2.transport.created =
        state.transport.created ++ sessions ∧
      (s.openFeed host app token state).2.transport.session.watches =
        state.transport.session.watches ++ watches ∧
      Opened (s.sessionConfig host token) (Category.all.map (state.identity.watch app))
        (s.openFeed host app token state).1 sessions watches := by
  refine ⟨identity_openFeed rfl, ?_⟩
  cases failure : state.transport.failure with
  | some e =>
    rw [openFeed_of_failure failure]
    exact ⟨[], [], (List.append_nil _).symm, (List.append_nil _).symm, .refused e⟩
  | none =>
    rw [openFeed_of_none failure]
    generalize Category.all.map (state.identity.watch app) = all
    refine ⟨[s.sessionConfig host token], state.transport.session.granted all, rfl, ?_, ?_⟩
    · rw [FeedSession.subscribeAll_session]
    · rcases FeedSession.subscribeAll_result state.transport.session all with
        ⟨ok, granted⟩ | ⟨w, rest, split, -, error⟩
      · rw [ok, granted]
        exact .complete
      · rw [error]
        exact .cut _ ⟨_, split.symm⟩

namespace Gate

inductive Call where
  | update (u : Update)
  | start (settings : FeedSettings) (host app : String)

abbrev Calls := List (Nat × Call)

structure Attempt where
  begun : Nat
  settings : FeedSettings
  host : String
  app : String
  deriving DecidableEq, Repr

def Attempt.deadline (a : Attempt) : Nat := a.begun + a.settings.sessionWaitMs.toNat

/-- The end of a start: when it came, its answer, and the sessions and watches it added. -/
structure Ending where
  attempt : Attempt
  instant : Nat
  result : Except FeedError FeedHandle
  sessions : List SessionConfig
  watches : List Watch

/-- What the clock leaves open: who goes on first once the token is there, and which waits are
over before a call that comes just at their deadline. -/
structure Scheduler where
  order : List Attempt → List Attempt
  order_perm : ∀ as, (order as).Perm as
  prompt : Attempt → Bool

def Scheduler.lapsed (σ : Scheduler) (now : Nat) (a : Attempt) : Bool :=
  a.deadline < now || a.deadline == now && σ.prompt a

theorem Scheduler.deadline_le_of_lapsed {σ : Scheduler} {now : Nat} {a : Attempt}
    (lapsed : σ.lapsed now a = true) : a.deadline ≤ now := by
  simp only [Scheduler.lapsed, Bool.or_eq_true, decide_eq_true_eq, Bool.and_eq_true,
    beq_iff_eq] at lapsed
  omega

theorem Scheduler.le_deadline_of_not_lapsed {σ : Scheduler} {now : Nat} {a : Attempt}
    (waits : σ.lapsed now a = false) : now ≤ a.deadline := by
  simp only [Scheduler.lapsed, Bool.or_eq_false_iff, decide_eq_false_iff_not] at waits
  omega

end Gate

structure Gate where
  feed : FeedState
  waiting : List Gate.Attempt
  endings : List Gate.Ending

namespace Gate

def first (feed : FeedState) : Gate := ⟨feed, [], []⟩

def fail (g : Gate) (instant : Nat) (a : Attempt) (e : FeedError) : Gate :=
  { g with endings := g.endings ++ [⟨a, instant, .error e, [], []⟩] }

def expire (g : Gate) (elapsed : Attempt → Bool) : Gate where
  feed := g.feed
  waiting := g.waiting.filter fun a => !elapsed a
  endings := g.endings ++ (g.waiting.filter elapsed).map fun a =>
    ⟨a, a.deadline, .error (.readiness ⟨a.settings.sessionWaitMs⟩), [], []⟩

def enter (g : Gate) (a : Attempt) : Gate :=
  match a.settings.validate with
  | .error fault => g.fail a.begun a (.settings fault)
  | .ok _ => { g with waiting := g.waiting ++ [a] }

def proceed (g : Gate) (now : Nat) (token : String) (a : Attempt) : Gate :=
  let opening := a.settings.openFeed a.host a.app token g.feed
  { g with
    feed := opening.2
    endings := g.endings ++ [{
      attempt := a
      instant := now
      result := opening.1
      sessions := opening.2.transport.created.drop g.feed.transport.created.length
      watches :=
        opening.2.transport.session.watches.drop g.feed.transport.session.watches.length }] }

def proceedAll (g : Gate) (now : Nat) (token : String) (as : List Attempt) : Gate :=
  as.foldl (fun g a => g.proceed now token a) g

def wake (g : Gate) (σ : Scheduler) (now : Nat) : Gate :=
  match g.feed.identity.session.token with
  | none => g
  | some token => { g with waiting := [] }.proceedAll now token (σ.order g.waiting)

def update (g : Gate) (u : Update) : Gate :=
  { g with feed := { g.feed with identity := g.feed.identity.update u } }

def step (g : Gate) (σ : Scheduler) : Nat × Call → Gate
  | (now, .update u) => ((g.expire (σ.lapsed now)).update u).wake σ now
  | (now, .start s host app) => ((g.expire (σ.lapsed now)).enter ⟨now, s, host, app⟩).wake σ now

def after (g : Gate) (σ : Scheduler) (calls : Calls) : Gate :=
  calls.foldl (fun g call => g.step σ call) g

/-- All calls, and then the clock alone until nobody waits. -/
def finish (g : Gate) (σ : Scheduler) (calls : Calls) : Gate :=
  (g.after σ calls).expire fun _ => true

theorem finish_cons (g : Gate) (σ : Scheduler) (call : Nat × Call) (calls : Calls) :
    g.finish σ (call :: calls) = (g.step σ call).finish σ calls := rfl

def run (σ : Scheduler) (feed : FeedState) (calls : Calls) : Gate := (first feed).finish σ calls

theorem expire_of_idle {g : Gate} (idle : g.waiting = []) (elapsed : Attempt → Bool) :
    g.expire elapsed = g := by
  obtain ⟨feed, waiting, endings⟩ := g
  cases idle
  rw [expire, List.filter_nil, List.filter_nil, List.map_nil, List.append_nil]

theorem wake_of_idle {g : Gate} (idle : g.waiting = []) (σ : Scheduler) (now : Nat) :
    g.wake σ now = g := by
  obtain ⟨feed, waiting, endings⟩ := g
  cases idle
  rw [wake]
  split
  · rfl
  · rw [(σ.order_perm []).eq_nil, proceedAll, List.foldl_nil]

theorem wake_of_none {g : Gate} (none : g.feed.identity.session.token = none) (σ : Scheduler)
    (now : Nat) : g.wake σ now = g := by
  rw [wake, none]

theorem step_update_of_idle {g : Gate} (idle : g.waiting = []) (σ : Scheduler) (now : Nat)
    (u : Update) : g.step σ (now, .update u) = g.update u := by
  rw [step, expire_of_idle idle, wake_of_idle]
  exact idle

def updates (schedule : Schedule) : Calls := schedule.map fun due => (due.1, .update due.2)

def outcome (g : Gate) : List (Except FeedError FeedHandle) × Transport :=
  (g.endings.map Ending.result, g.feed.transport)

theorem outcome_updates_of_idle {g : Gate} (idle : g.waiting = []) (σ : Scheduler)
    (schedule : Schedule) :
    (g.finish σ (updates schedule)).outcome = g.outcome := by
  induction schedule generalizing g with
  | nil => exact congrArg outcome (expire_of_idle idle _)
  | cons due schedule ih =>
    rw [updates, List.map_cons, finish_cons, step_update_of_idle idle]
    exact ih (g := g.update due.2) idle

section OneStart

variable {σ : Scheduler} {a : Attempt}

theorem wake_one {feed : FeedState} {token : String}
    (settled : feed.identity.session.token = some token) (now : Nat) :
    (⟨feed, [a], []⟩ : Gate).wake σ now = (⟨feed, [], []⟩ : Gate).proceed now token a := by
  rw [wake]
  simp only [settled]
  rw [List.perm_singleton.mp (σ.order_perm [a]), proceedAll, List.foldl_cons, List.foldl_nil]

def awaited (a : Attempt) (feed : FeedState) (w : Awaited) :
    List (Except FeedError FeedHandle) × Transport :=
  match w.result with
  | .error timeout => ([.error (.readiness timeout)], feed.transport)
  | .ok token =>
    let opening := a.settings.openFeed a.host a.app token { feed with identity := w.identity }
    ([opening.1], opening.2.transport)

theorem outcome_wait (late : ∀ a, σ.prompt a = false) (feed : FeedState)
    (unsettled : feed.identity.session.token = none) (schedule : Schedule) :
    ((⟨feed, [a], []⟩ : Gate).finish σ (updates schedule)).outcome =
      awaited a feed (feed.identity.awaitUntil a.deadline a.settings.sessionWaitMs.toNat
        schedule) := by
  induction schedule generalizing feed with
  | nil =>
    simp only [Identity.awaitUntil, Promise.wait, unsettled, SessionTimeout.after_toNat]
    rfl
  | cons due schedule ih =>
    obtain ⟨now, u⟩ := due
    have lapsed : σ.lapsed now a = decide (a.deadline < now) := by
      rw [Scheduler.lapsed, late, Bool.and_false, Bool.or_false]
    rw [updates, List.map_cons, finish_cons, ← updates]
    simp only [Identity.awaitUntil, unsettled]
    by_cases inTime : now ≤ a.deadline
    · have waits : (⟨feed, [a], []⟩ : Gate).expire (σ.lapsed now) = ⟨feed, [a], []⟩ := by
        simp [expire, lapsed, inTime]
      rw [if_pos inTime, step, waits]
      cases token : (feed.identity.update u).session.token with
      | none =>
        rw [wake_of_none token]
        exact ih { feed with identity := feed.identity.update u } token
      | some t =>
        rw [Identity.awaitUntil_of_token token, update, wake_one token, outcome_updates_of_idle rfl]
        rfl
    · have gone : (⟨feed, [a], []⟩ : Gate).expire (σ.lapsed now) =
          ⟨feed, [],
            [⟨a, a.deadline, .error (.readiness ⟨a.settings.sessionWaitMs⟩), [], []⟩]⟩ := by
        simp [expire, lapsed, Nat.lt_of_not_le inTime]
      rw [if_neg inTime, step, gone, wake_of_idle rfl, outcome_updates_of_idle rfl,
        SessionTimeout.after_toNat]
      rfl

/-- One start among updates ends as it does on a schedule of these updates. -/
theorem outcome_run_of_one_start (late : ∀ a, σ.prompt a = false) (s : FeedSettings)
    (host app : String) (instant : Nat) (schedule : Schedule) (feed : FeedState) :
    (run σ feed ((instant, .start s host app) :: updates schedule)).outcome =
      ([(s.start host app instant schedule feed).1],
        (s.start host app instant schedule feed).2.1.transport) := by
  rw [run, finish_cons, step, expire_of_idle (g := first feed) rfl, enter, FeedSettings.start]
  cases valid : s.validate with
  | error fault =>
    simp only
    rw [wake_of_idle rfl, outcome_updates_of_idle rfl]
    rfl
  | ok _ =>
    simp only
    rw [first, List.nil_append]
    cases token : feed.identity.session.token with
    | some t =>
      rw [wake_one token, outcome_updates_of_idle rfl, Identity.await,
        Identity.awaitUntil_of_token token]
      rfl
    | none =>
      rw [wake_of_none token, outcome_wait late feed token, awaited, Identity.await,
        Attempt.deadline]
      cases (feed.identity.awaitUntil (instant + s.sessionWaitMs.toNat) s.sessionWaitMs.toNat
        schedule).result <;> rfl

end OneStart

end Gate
end RuleFeed
