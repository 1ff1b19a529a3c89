import RuleFeed.Proofs.Feed.Start

/-!
What a start with a token does to the service. The categories are registered in their order up to
the first whose data id is refused; what was registered stays, what was there before stays before
it, and the answer names the data id at which the start stopped. A failure that is laid in for the
session costs this start alone.
-/
namespace RuleFeed

/-- All categories, split at the first whose data id is refused. -/
structure Registers (refused : List String) (dataId : Category → String)
    (registered rest : List Category) : Prop where
  split : registered ++ rest = [.flow, .system, .circuitBreaking, .hotSpot]
  granted : ∀ c ∈ registered, dataId c ∉ refused
  stopped : ∀ c ∈ rest.head?, dataId c ∈ refused

theorem Registers.of_granted {refused : List String} {dataId : Category → String}
    (granted : ∀ c, dataId c ∉ refused) : Registers refused dataId Category.all [] :=
  ⟨rfl, fun c _ => granted c, nofun⟩

theorem exists_registers (refused : List String) (dataId : Category → String) :
    ∃ registered rest, Registers refused dataId registered rest := by
  refine ⟨Category.all.takeWhile fun c => dataId c ∉ refused,
    Category.all.dropWhile fun c => dataId c ∉ refused, List.takeWhile_append_dropWhile,
    fun c mem => ?_, fun c first => ?_⟩
  · exact of_decide_eq_true (List.all_eq_true.mp List.all_takeWhile c mem)
  · have stops := List.head?_dropWhile_not (fun c => decide (dataId c ∉ refused)) Category.all
    rw [Option.mem_def.mp first] at stops
    simpa using stops

theorem FeedSession.subscribeAll_append {s : FeedSession} {ws : List Watch}
    (granted : ∀ w ∈ ws, w.dataId ∉ s.refused) (rest : List Watch) :
    s.subscribeAll (ws ++ rest) =
      { s with watches := s.watches ++ ws }.subscribeAll rest := by
  induction ws generalizing s with
  | nil => rw [List.nil_append, List.append_nil]
  | cons w ws ih =>
    obtain ⟨free, others⟩ := List.forall_mem_cons.mp granted
    have taken : s.subscribe w = (.ok (), { s with watches := s.watches ++ [w] }) := by
      rw [subscribe, if_neg (by simpa using free)]
    rw [List.cons_append, subscribeAll, taken]
    exact (ih (s := { s with watches := s.watches ++ [w] }) others).trans
      (by rw [List.append_assoc, List.singleton_append])

def Transport.opened (t : Transport) (config : SessionConfig) (watches : List Watch) :
    Transport where
  session := ⟨t.session.watches ++ watches, t.session.refused⟩
  created := t.created ++ [config]
  failure := none

namespace FeedHandle

def complete (config : SessionConfig) (dataId : Category → String) : FeedHandle where
  config := config
  subscriptions := Category.all.map fun c => ⟨DataId.group, dataId c, c⟩

@[simp] theorem dataId?_complete (config : SessionConfig) (dataId : Category → String)
    (c : Category) : (complete config dataId).dataId? c = some (dataId c) := by
  cases c <;> rfl

end FeedHandle

namespace FeedSettings

/-- The answer of a start that has opened its session, by the categories that are left over. -/
def answer (config : SessionConfig) (dataId : Category → String) :
    List Category → Except FeedError FeedHandle
  | [] => .ok (.complete config dataId)
  | c :: _ => .error (.subscribe (dataId c)
      (.rejected ("subscription to " ++ dataId c ++ " refused")))

variable {s : FeedSettings} {host app token : String} {state : FeedState} {instant : Nat}
  {schedule : Schedule} {registered rest : List Category}

theorem openFeed_of_registers (free : state.transport.failure = none)
    (registers : Registers state.transport.session.refused (state.identity.dataId app)
      registered rest) :
    s.openFeed host app token state =
      (answer (s.sessionConfig host token) (state.identity.dataId app) rest, {
        identity := state.identity
        transport := state.transport.opened (s.sessionConfig host token)
          (registered.map (state.identity.watch app)) }) := by
  have granted : ∀ w ∈ registered.map (state.identity.watch app),
      w.dataId ∉ state.transport.session.refused :=
    List.forall_mem_map.mpr registers.granted
  have all : Category.all.map (state.identity.watch app) =
      registered.map (state.identity.watch app) ++ rest.map (state.identity.watch app) := by
    rw [← List.map_append, registers.split]
    rfl
  rw [openFeed_of_none free, all, FeedSession.subscribeAll_append granted]
  cases rest with
  | nil =>
    rw [← all]
    rfl
  | cons c rest =>
    have stopped := registers.stopped c rfl
    rw [List.map_cons, FeedSession.subscribeAll, FeedSession.subscribe,
      if_pos (by simpa using stopped)]
    rfl

theorem start_of_token (valid : s.validate = .ok ())
    (delivered : state.identity.session.token = some token) :
    s.start host app instant schedule state =
      ((s.openFeed host app token state).1, (s.openFeed host app token state).2, schedule) := by
  exact start_of_awaited valid (Identity.awaitUntil_of_token delivered _ _ _)

theorem start_ne_sessionCreate (free : state.transport.failure = none) (e : TransportError) :
    (s.start host app instant schedule state).1 ≠ .error (.sessionCreate e) := by
  intro failed
  rcases started : s.start host app instant schedule state with ⟨result, after, later⟩
  rw [started] at failed
  rcases start_cases started with ⟨fault, -, rfl, -⟩ |
    ⟨awaited, -, -, -, ⟨timeout, -, rfl, -⟩ | ⟨token, -, opened⟩⟩
  · cases failed
  · cases failed
  · obtain ⟨registered, rest, registers⟩ :=
      exists_registers state.transport.session.refused (awaited.identity.dataId app)
    have answered : s.openFeed host app token { state with identity := awaited.identity } = _ :=
      openFeed_of_registers free registers
    rw [opened] at answered
    cases answered
    cases rest <;> cases failed

/-- Invalid settings are reported before anything is touched. With a token, a start opens one
session and registers the longest prefix of the categories that holds no refused data id, or it
uses up the failure that was laid in, and no later start fails by that. -/
theorem start_registers_until_refused (s : FeedSettings) (host app : String) (instant : Nat)
    (schedule : Schedule) (state : FeedState) :
    (∀ fault, s.validate = .error fault →
      s.start host app instant schedule state = (.error (.settings fault), state, schedule)) ∧
    ∀ token, s.validate = .ok () → state.identity.session.token = some token →
      let config : SessionConfig :=
        ⟨token, host ++ ":" ++ Decimal.write s.transportPort.toNat, s.timeoutMs,
          s.listenIntervalMs⟩
      let dataId (c : Category) : String :=
        DataId.write c state.identity.tenantId state.identity.facts.namespaceName app
      let refused := state.transport.session.refused
      (∀ e, state.transport.failure = some e →
        let after : FeedState :=
          { state with transport := { state.transport with failure := none } }
        s.start host app instant schedule state = (.error (.sessionCreate e), after, schedule) ∧
        ∀ (next : FeedSettings) (host app : String) (instant : Nat) (schedule : Schedule)
          (e : TransportError),
          (next.start host app instant schedule after).1 ≠ .error (.sessionCreate e)) ∧
      (state.transport.failure = none →
        (∃ registered rest, Registers refused dataId registered rest) ∧
        ∀ registered rest, Registers refused dataId registered rest →
          s.start host app instant schedule state = (answer config dataId rest, {
            identity := state.identity
            transport := {
              session := {
                watches := state.transport.session.watches ++
                  registered.map fun c => ⟨"ahas-sentinel", dataId c, c⟩
                refused := refused }
              created := state.transport.created ++ [config]
              failure := none } }, schedule)) ∧
      ∀ c, (FeedHandle.complete config dataId).dataId? c = some (dataId c) := by
  refine ⟨fun fault invalid => by rw [start, invalid], fun token valid delivered => ?_⟩
  refine ⟨fun e failure => ⟨?_, ?_⟩, fun free => ⟨exists_registers _ _, ?_⟩,
    FeedHandle.dataId?_complete _ _⟩
  · rw [start_of_token valid delivered, openFeed_of_failure failure]
  · exact fun _ _ _ _ _ e => start_ne_sessionCreate rfl e
  · intro registered rest registers
    rw [start_of_token valid delivered, openFeed_of_registers free registers]
    rfl

/-- The third data id is refused; the watch that was there before and the two made stay. -/
theorem start_registers_until_refused_third :
    let state : FeedState := {
      identity := ((Identity.ofFacts { Facts.blank with namespaceName := "space" } "tenant").deliver
        "token").2
      transport := {
        session := ⟨[⟨"extra", "other", .flow⟩], ["degrade-rule-tenant-space-app"]⟩
        created := []
        failure := none } }
    (standard.start "host" "app" 0 [] state).1 =
        .error (.subscribe "degrade-rule-tenant-space-app"
          (.rejected "subscription to degrade-rule-tenant-space-app refused")) ∧
      (standard.start "host" "app" 0 [] state).2.1.transport.session.watches = [
        ⟨"extra", "other", .flow⟩, ⟨"ahas-sentinel", "flow-rule-tenant-space-app", .flow⟩,
        ⟨"ahas-sentinel", "system-rule-tenant-space-app", .system⟩] := by
  intro state
  have started := (((start_registers_until_refused standard "host" "app" 0 [] state).2 "token"
    rfl rfl).2.1 rfl).2 [.flow, .system] [.circuitBreaking, .hotSpot]
    ⟨rfl, by decide, by decide⟩
  rw [started]
  exact ⟨rfl, rfl⟩

end FeedSettings
end RuleFeed
