import RuleFeed.Proofs.Feed.Listener
import RuleFeed.Proofs.Feed.Start

/-!
Runs of publications and refusals on a session. `Holds` says what an engine holds after a history,
in terms of the history alone: for each registered category the rules of the last document that
decodes and came before the category was refused, and the replacements in the order of the
documents. One event keeps `Holds`, so every run does.
-/
namespace RuleFeed

inductive FeedEvent where
  | publish (dataId payload : String)
  /-- From now on the engine refuses the category. -/
  | reject (c : Category)
  deriving DecidableEq

namespace FeedEvent

def report? (c : Category) (dataId : String) : FeedEvent → Option (Report c)
  | .publish published payload =>
    if published = dataId then (Report.ofDocument c payload).toOption else none
  | .reject _ => none

def beforeRefusal (c : Category) (history : List FeedEvent) : List FeedEvent :=
  history.takeWhile fun event => event ≠ .reject c

/-- The reports of a category's documents that decode and come before its refusal. -/
def reports (c : Category) (dataId : String) (history : List FeedEvent) : List (Report c) :=
  (beforeRefusal c history).filterMap (report? c dataId)

def lastAccepted (c : Category) (dataId : String) (history : List FeedEvent) : List (Rule c) :=
  ((reports c dataId history).getLast?.map Report.accepted).getD []

/-- The registered categories whose sets an event replaces after a history: it is a document of
the category that decodes, and the category has not been refused. -/
def replaced (dataId : Category → String) (registered : List Category)
    (history : List FeedEvent) (event : FeedEvent) : List Category :=
  registered.filter fun c =>
    (report? c (dataId c) event).isSome && !history.contains (.reject c)

def replacements (dataId : Category → String) (registered : List Category)
    (history : List FeedEvent) : List FeedEvent → List Category
  | [] => []
  | event :: events =>
    replaced dataId registered history event ++
      replacements dataId registered (history ++ [event]) events

theorem report?_of_ok {c : Category} {payload : String} {r : Report c}
    (decoded : Report.ofDocument c payload = .ok r) (dataId : String) :
    report? c dataId (.publish dataId payload) = some r := by
  rw [report?, if_pos rfl, decoded]
  rfl

theorem report?_of_error {c : Category} {payload : String} {f : DecodeError}
    (malformed : Report.ofDocument c payload = .error f) (dataId : String) :
    report? c dataId (.publish dataId payload) = none := by
  rw [report?, if_pos rfl, malformed]
  rfl

theorem report?_of_ne {c : Category} {dataId published : String} (other : published ≠ dataId)
    (payload : String) : report? c dataId (.publish published payload) = none := if_neg other

theorem beforeRefusal_of_refused {c : Category} {history : List FeedEvent} (event : FeedEvent)
    (refused : .reject c ∈ history) :
    beforeRefusal c (history ++ [event]) = beforeRefusal c history := by
  have shorter : (beforeRefusal c history).length ≠ history.length := by
    intro same
    have all := List.all_takeWhile (l := history) (p := fun event => event ≠ .reject c)
    rw [(List.takeWhile_prefix _).eq_of_length same] at all
    have free := List.all_eq_true.mp all (.reject c) refused
    simp at free
  rw [beforeRefusal, List.takeWhile_append]
  exact if_neg shorter

private theorem ne_refusal {c : Category} {history : List FeedEvent}
    (free : .reject c ∉ history) : ∀ event ∈ history, decide (event ≠ .reject c) = true :=
  fun _ mem => decide_eq_true fun same => free (same ▸ mem)

theorem beforeRefusal_of_free {c : Category} {history : List FeedEvent}
    (free : .reject c ∉ history) : beforeRefusal c history = history := by
  rw [beforeRefusal, ← List.append_nil history, List.takeWhile_append_of_pos (ne_refusal free),
    List.takeWhile_nil]

theorem reports_snoc_of_refused {c : Category} (dataId : String) {history : List FeedEvent}
    (event : FeedEvent) (refused : .reject c ∈ history) :
    reports c dataId (history ++ [event]) = reports c dataId history := by
  rw [reports, beforeRefusal_of_refused event refused, reports]

theorem reports_snoc_of_free {c : Category} (dataId : String) {history : List FeedEvent}
    (event : FeedEvent) (free : .reject c ∉ history) :
    reports c dataId (history ++ [event]) =
      reports c dataId history ++ (report? c dataId event).toList := by
  by_cases refusal : event = .reject c
  · subst refusal
    rw [reports, reports, beforeRefusal, List.takeWhile_append_of_pos (ne_refusal free),
      beforeRefusal_of_free free]
    simp [report?]
  · have longer : .reject c ∉ history ++ [event] := by
      simp [free, Ne.symm refusal]
    rw [reports, reports, beforeRefusal_of_free longer, beforeRefusal_of_free free,
      List.filterMap_append, List.filterMap_cons]
    cases report? c dataId event <;> rfl

theorem lastAccepted_snoc_of_none {c : Category} {dataId : String} (history : List FeedEvent)
    {event : FeedEvent} (none : report? c dataId event = none) :
    lastAccepted c dataId (history ++ [event]) = lastAccepted c dataId history := by
  by_cases refused : .reject c ∈ history
  · rw [lastAccepted, reports_snoc_of_refused dataId event refused, lastAccepted]
  · rw [lastAccepted, reports_snoc_of_free dataId event refused, none, Option.toList_none,
      List.append_nil, lastAccepted]

theorem lastAccepted_snoc_of_refused {c : Category} (dataId : String) {history : List FeedEvent}
    (event : FeedEvent) (refused : .reject c ∈ history) :
    lastAccepted c dataId (history ++ [event]) = lastAccepted c dataId history := by
  rw [lastAccepted, reports_snoc_of_refused dataId event refused, lastAccepted]

theorem lastAccepted_snoc_of_free {c : Category} {dataId : String} {history : List FeedEvent}
    {event : FeedEvent} {r : Report c} (free : .reject c ∉ history)
    (some : report? c dataId event = some r) :
    lastAccepted c dataId (history ++ [event]) = r.accepted := by
  rw [lastAccepted, reports_snoc_of_free dataId event free, some, Option.toList_some,
    List.getLast?_concat]
  rfl

end FeedEvent

namespace FeedSession

def feed (s : FeedSession) (e : Engine) : FeedEvent → Engine
  | .publish dataId payload => (s.publish e dataId payload).2
  | .reject c => e.reject c

def run (s : FeedSession) (e : Engine) (events : List FeedEvent) : Engine := events.foldl s.feed e

end FeedSession

/-- The session has exactly one watch for each registered category, and the data ids of different
categories differ. -/
structure Feeds (s : FeedSession) (dataId : Category → String) (registered : List Category) :
    Prop where
  watches : ∃ group, s.watches = registered.map fun c => ⟨group, dataId c, c⟩
  nodup : registered.Nodup
  distinct : ∀ {c d}, dataId c = dataId d → c = d

namespace Feeds

variable {s : FeedSession} {dataId : Category → String} {registered : List Category}

theorem filter_eq (h : Feeds s dataId registered) {c : Category} (mem : c ∈ registered)
    {p : Category → Bool} (only : ∀ d, p d = true ↔ d = c) : registered.filter p = [c] := by
  have test : p = fun d => d == c := by
    funext d
    rw [Bool.eq_iff_iff, only, beq_iff_eq]
  rw [test, List.filter_beq, h.nodup.count, if_pos mem]
  rfl

theorem dataId_ne (h : Feeds s dataId registered) {c d : Category} (different : d ≠ c) :
    dataId c ≠ dataId d := fun same => different (h.distinct same).symm

theorem publish_registered (h : Feeds s dataId registered) {c : Category} (mem : c ∈ registered)
    (e : Engine) (payload : String) :
    s.publish e (dataId c) payload = (1, e.onChange c payload) := by
  obtain ⟨group, watches⟩ := h.watches
  have only : ∀ d, (dataId d == dataId c) = true ↔ d = c := fun d => by
    rw [beq_iff_eq]
    exact ⟨h.distinct, congrArg dataId⟩
  have targets : s.targets (dataId c) = [⟨group, dataId c, c⟩] := by
    rw [FeedSession.targets, watches, List.filter_map]
    exact congrArg (List.map _) (h.filter_eq mem only)
  rw [FeedSession.publish, targets]
  rfl

theorem publish_foreign (h : Feeds s dataId registered) {published : String}
    (foreign : ∀ c ∈ registered, published ≠ dataId c) (e : Engine) (payload : String) :
    s.publish e published payload = (0, e) := by
  obtain ⟨group, watches⟩ := h.watches
  have targets : s.targets published = [] := by
    rw [FeedSession.targets, watches, List.filter_map, List.map_eq_nil_iff,
      List.filter_eq_nil_iff]
    intro c mem same
    exact foreign c mem (beq_iff_eq.mp same).symm
  rw [FeedSession.publish, targets]
  rfl

end Feeds

open FeedEvent

/-- What an engine holds after a history of events on a session, by the history alone. -/
structure Holds (dataId : Category → String) (registered : List Category)
    (history : List FeedEvent) (e : Engine) : Prop where
  get : ∀ c, e.sets.get c = if c ∈ registered then lastAccepted c (dataId c) history else []
  replacements : e.replacements = FeedEvent.replacements dataId registered [] history
  rejects : ∀ c, e.rejects c = history.contains (.reject c)

namespace Holds

variable {s : FeedSession} {dataId : Category → String} {registered : List Category}
  {history : List FeedEvent} {e : Engine}

theorem empty (dataId : Category → String) (registered : List Category) :
    Holds dataId registered [] .empty where
  get c := by
    rw [Engine.empty, RuleSets.get_empty]
    split <;> rfl
  replacements := rfl
  rejects _ := rfl

theorem replacements_snoc (before : List FeedEvent) (event : FeedEvent) :
    FeedEvent.replacements dataId registered before (history ++ [event]) =
      FeedEvent.replacements dataId registered before history ++
        replaced dataId registered (before ++ history) event := by
  induction history generalizing before with
  | nil => simp only [List.nil_append, FeedEvent.replacements, List.append_nil]
  | cons first history ih =>
    simp only [List.cons_append, FeedEvent.replacements, ih, List.append_assoc, List.nil_append]

theorem unchanged (holds : Holds dataId registered history e) {event : FeedEvent}
    (kept : ∀ c ∈ registered, .reject c ∈ history ∨ report? c (dataId c) event = none)
    (free : ∀ c, event ≠ .reject c) : Holds dataId registered (history ++ [event]) e where
  get c := by
    rw [holds.get]
    split
    · next mem =>
      rcases kept c mem with refused | none
      · rw [lastAccepted_snoc_of_refused _ _ refused]
      · rw [lastAccepted_snoc_of_none _ none]
    · rfl
  replacements := by
    have nothing : replaced dataId registered history event = [] := by
      rw [replaced, List.filter_eq_nil_iff]
      intro c mem selected
      rcases kept c mem with refused | none
      · simp [refused] at selected
      · simp [none] at selected
    rw [replacements_snoc, List.nil_append, nothing, List.append_nil, holds.replacements]
  rejects c := by
    rw [holds.rejects]
    simp [Ne.symm (free c)]

theorem reject (holds : Holds dataId registered history e) (c : Category) :
    Holds dataId registered (history ++ [.reject c]) (e.reject c) where
  get d := by
    have none : report? d (dataId d) (.reject c) = none := rfl
    rw [lastAccepted_snoc_of_none history none]
    exact holds.get d
  replacements := by
    have nothing : replaced dataId registered history (.reject c) = [] := by
      rw [replaced, List.filter_eq_nil_iff]
      intro d _ selected
      simp [report?] at selected
    rw [replacements_snoc, List.nil_append, nothing, List.append_nil]
    exact holds.replacements
  rejects d := by
    rw [Engine.rejects_reject, holds.rejects]
    by_cases same : d = c
    · simp [same]
    · have other : FeedEvent.reject d ≠ .reject c := fun events => same (by injection events)
      simp [same, other]

theorem install (holds : Holds dataId registered history e) (feeds : Feeds s dataId registered)
    {c : Category} (mem : c ∈ registered) {payload : String} {r : Report c}
    (decoded : Report.ofDocument c payload = .ok r) (free : .reject c ∉ history) :
    Holds dataId registered (history ++ [.publish (dataId c) payload])
      (e.install c r.accepted) where
  get d := by
    by_cases same : d = c
    · subst same
      rw [Engine.get_install, if_pos mem,
        lastAccepted_snoc_of_free free (report?_of_ok decoded _)]
    · rw [Engine.get_install_of_ne e r.accepted same,
        lastAccepted_snoc_of_none history (report?_of_ne (feeds.dataId_ne same) payload)]
      exact holds.get d
  replacements := by
    have one : replaced dataId registered history (.publish (dataId c) payload) = [c] := by
      refine feeds.filter_eq mem fun d => ?_
      by_cases same : d = c
      · subst same
        simp [report?_of_ok decoded, free]
      · simp [report?_of_ne (feeds.dataId_ne same), same]
    rw [replacements_snoc, List.nil_append, one, ← holds.replacements]
    rfl
  rejects d := by
    rw [Engine.rejects_install, holds.rejects]
    simp

theorem passed (holds : Holds dataId registered history e) (feeds : Feeds s dataId registered)
    {c : Category} {payload : String}
    (kept : .reject c ∈ history ∨ report? c (dataId c) (.publish (dataId c) payload) = none) :
    Holds dataId registered (history ++ [.publish (dataId c) payload]) e := by
  refine holds.unchanged (fun d _ => ?_) fun _ => nofun
  by_cases same : d = c
  · exact same ▸ kept
  · exact .inr (report?_of_ne (feeds.dataId_ne same) payload)

theorem onChange (holds : Holds dataId registered history e) (feeds : Feeds s dataId registered)
    {c : Category} (mem : c ∈ registered) (payload : String) :
    Holds dataId registered (history ++ [.publish (dataId c) payload]) (e.onChange c payload) := by
  cases decoded : Report.ofDocument c payload with
  | error f =>
    rw [Engine.onChange_of_error decoded]
    exact holds.passed feeds (.inr (report?_of_error decoded _))
  | ok r =>
    by_cases refused : .reject c ∈ history
    · have rejects : e.rejects c = true := by
        rw [holds.rejects]
        exact List.contains_iff_mem.mpr refused
      rw [Engine.onChange_of_rejects decoded rejects]
      exact holds.passed feeds (.inl refused)
    · have rejects : e.rejects c = false := by
        rw [holds.rejects]
        simpa using refused
      rw [Engine.onChange_of_accepts decoded rejects]
      exact holds.install feeds mem decoded refused

theorem step (holds : Holds dataId registered history e) (feeds : Feeds s dataId registered)
    (event : FeedEvent) : Holds dataId registered (history ++ [event]) (s.feed e event) := by
  cases event with
  | reject c => exact holds.reject c
  | publish published payload =>
    by_cases foreign : ∀ c ∈ registered, published ≠ dataId c
    · rw [FeedSession.feed, feeds.publish_foreign foreign]
      refine holds.unchanged (fun c mem => .inr ?_) fun _ => nofun
      exact report?_of_ne (foreign c mem) payload
    · obtain ⟨c, mem, rfl⟩ : ∃ c ∈ registered, published = dataId c := by simpa using foreign
      rw [FeedSession.feed, feeds.publish_registered mem]
      exact holds.onChange feeds mem payload

theorem run (holds : Holds dataId registered history e) (feeds : Feeds s dataId registered)
    (events : List FeedEvent) : Holds dataId registered (history ++ events) (s.run e events) := by
  induction events generalizing history e with
  | nil =>
    rw [List.append_nil]
    exact holds
  | cons event events ih =>
    have next := ih (holds.step feeds event)
    rwa [List.append_assoc, List.singleton_append] at next

end Holds

namespace FeedSettings

variable {s : FeedSettings} {host app : String} {instant : Nat} {schedule later : Schedule}
  {state after : FeedState} {result : Except FeedError FeedHandle}

theorem feeds_start (fresh : state.transport.session.watches = [])
    (started : s.start host app instant schedule state = (result, after, later)) :
    Feeds after.transport.session (after.identity.dataId app)
      (registeredBy (after.identity.dataId app) result) where
  watches := ⟨DataId.group, watches_start fresh started⟩
  nodup := nodup_registeredBy _ _
  distinct := DataId.category_eq_of_write_eq

/-- After a start on a session without watches, and whatever is published and refused from then
on, the rule set of a registered category is what the last document of that category said that
decodes and came before the refusal, and the other sets stay empty. The replacements are those
documents in order; a document reaches the one watch of its category, or none and nothing. -/
theorem start_holds_last_documents (fresh : state.transport.session.watches = [])
    (started : s.start host app instant schedule state = (result, after, later))
    (events : List FeedEvent) :
    let session := after.transport.session
    let dataId := after.identity.dataId app
    let registered := registeredBy dataId result
    let engine := session.run .empty events
    (∀ token, state.identity.session.token = some token → after.identity = state.identity) ∧
    session.watches.map Watch.category = registered ∧
    (∀ c ∈ registered, engine.sets.get c = FeedEvent.lastAccepted c (dataId c) events) ∧
    (∀ c, c ∉ registered → engine.sets.get c = []) ∧
    engine.replacements = FeedEvent.replacements dataId registered [] events ∧
    (∀ c ∈ registered, ∀ e payload, (session.publish e (dataId c) payload).1 = 1) ∧
    ∀ published, (∀ c ∈ registered, published ≠ dataId c) →
      ∀ e payload, session.publish e published payload = (0, e) := by
  intro session dataId registered engine
  have feeds := feeds_start fresh started
  have holds : Holds dataId registered events engine :=
    (Holds.empty dataId registered).run feeds events
  refine ⟨fun _ delivered => identity_start_of_token delivered started, ?_, fun c mem => ?_,
    fun c absent => ?_, holds.replacements, fun c mem e payload => ?_,
    fun published foreign e payload => feeds.publish_foreign foreign e payload⟩
  · rw [watches_start fresh started, List.map_map]
    exact List.map_id _
  · rw [holds.get, if_pos mem]
  · rw [holds.get, if_neg absent]
  · rw [feeds.publish_registered mem]

/-- A refused data id, a malformed document, one of no registered category and one after the
refusal leave the first document's rules. -/
theorem start_holds_last_documents_hotSpot_refused :
    let state : FeedState := {
      identity := ((Identity.ofFacts .blank "1").deliver "token").2
      transport := { Transport.empty with session := .refuse .empty "param-flow-rule-1--app" } }
    let events : List FeedEvent := [
      .publish "flow-rule-1--app" "\x7b\"Data\":[\x7b\"resource\":\"a\",\"count\":2\x7d]\x7d",
      .publish "flow-rule-1--app" "\x7b\"Data\":[\x7b\"resource\":1\x7d]\x7d",
      .publish "param-flow-rule-1--app" "\x7b\"Data\":[\x7b\"resource\":\"b\"\x7d]\x7d",
      .reject .flow,
      .publish "flow-rule-1--app" "\x7b\x7d"]
    let after := (standard.start "host" "app" 0 [] state).2.1
    let engine := after.transport.session.run .empty events
    state.transport.session.watches = [] ∧
      engine.sets.get .flow = [{ FlowRule.blank with resource := "a", count := .ofInt 2 }] ∧
      engine.sets.get .hotSpot = [] ∧ engine.replacements = [.flow] := by
  intro state events after engine
  have fresh : state.transport.session.watches = [] := rfl
  obtain ⟨-, -, registered, absent, replacements, -, -⟩ := start_holds_last_documents fresh
    (show standard.start "host" "app" 0 [] state = (_, after, _) from rfl) events
  refine ⟨fresh, ?_, ?_, ?_⟩
  · exact (registered .flow (by decide +kernel)).trans (by decide +kernel)
  · exact absent .hotSpot (by decide +kernel)
  · exact replacements.trans (by decide +kernel)

end FeedSettings
end RuleFeed
