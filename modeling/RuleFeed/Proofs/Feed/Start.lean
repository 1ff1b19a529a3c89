import RuleFeed.Feed.Start

/-!
How a start ends, and what it leaves in a session. Subscribing goes through the watches in order and
stops at the first data id that is refused, so what is registered is the longest prefix without one.
The data ids of two categories differ whatever the names in them are, hence a published document
reaches the watch of one category at most.
-/
namespace RuleFeed

namespace DataId

private theorem head?_start (c : Category) (rest : List Char) :
    ((start c).toList ++ rest).head? =
      some (match c with
        | .flow => 'f'
        | .system => 's'
        | .circuitBreaking => 'd'
        | .hotSpot => 'p') := by
  cases c <;> rfl

theorem category_eq_of_write_eq {c d : Category} {tenant tenant' space space' app app' : String}
    (h : write c tenant space app = write d tenant' space' app') : c = d := by
  have letters := congrArg (fun s => s.toList.head?) h
  simp only [write, String.toList_append, List.append_assoc, head?_start,
    Option.some.injEq] at letters
  cases c <;> cases d <;> first | rfl | exact absurd letters (by decide)

end DataId

namespace FeedSession

variable {s : FeedSession}

def granted (s : FeedSession) (ws : List Watch) : List Watch :=
  ws.takeWhile fun w => !s.refused.contains w.dataId

theorem granted_subset (s : FeedSession) (ws : List Watch) : s.granted ws ⊆ ws :=
  (List.takeWhile_sublist _).subset

theorem subscribeAll_session (s : FeedSession) (ws : List Watch) :
    (s.subscribeAll ws).2 = { s with watches := s.watches ++ s.granted ws } := by
  induction ws generalizing s with
  | nil => simp only [subscribeAll, granted, List.takeWhile_nil, List.append_nil]
  | cons w ws ih =>
    by_cases refused : s.refused.contains w.dataId = true
    · simp only [subscribeAll, subscribe, granted, refused, if_true, List.takeWhile_cons,
        Bool.not_true, Bool.false_eq_true, if_false, List.append_nil]
    · simp only [subscribeAll, subscribe, refused, Bool.false_eq_true, if_false, ih, granted,
        List.takeWhile_cons, Bool.not_false, if_true, List.append_assoc, List.singleton_append]

theorem subscribeAll_result (s : FeedSession) (ws : List Watch) :
    (s.subscribeAll ws).1 = .ok () ∧ s.granted ws = ws ∨
    ∃ w rest, ws = s.granted ws ++ w :: rest ∧ s.refused.contains w.dataId = true ∧
      (s.subscribeAll ws).1 = .error (.subscribe w.dataId
        (.rejected ("subscription to " ++ w.dataId ++ " refused"))) := by
  induction ws generalizing s with
  | nil => exact .inl ⟨rfl, rfl⟩
  | cons w ws ih =>
    by_cases refused : s.refused.contains w.dataId = true
    · refine .inr ⟨w, ws, ?_, refused, ?_⟩
      · simp only [granted, List.takeWhile_cons, refused, Bool.not_true, Bool.false_eq_true,
          if_false, List.nil_append]
      · simp only [subscribeAll, subscribe, refused, if_true]
    · have next := ih { s with watches := s.watches ++ [w] }
      simp only [granted] at next
      simp only [subscribeAll, subscribe, granted, refused, Bool.false_eq_true, if_false,
        List.takeWhile_cons, Bool.not_false, if_true]
      rcases next with ⟨ok, all⟩ | ⟨v, rest, split, stop, error⟩
      · exact .inl ⟨ok, by rw [all]⟩
      · exact .inr ⟨v, rest, by rw [List.cons_append, ← split], stop, error⟩

theorem not_refused_of_mem_granted {s : FeedSession} {ws : List Watch} {w : Watch}
    (mem : w ∈ s.granted ws) : s.refused.contains w.dataId = false := by
  have all := List.all_eq_true.mp List.all_takeWhile w mem
  simpa only [Bool.not_eq_true'] using all

end FeedSession

/-- The categories that a start registers, by its answer: all four, or those before the one
whose subscription is refused. -/
def registeredBy (dataId : Category → String) : Except FeedError FeedHandle → List Category
  | .ok _ => Category.all
  | .error (.subscribe refused _) => Category.all.takeWhile fun c => dataId c ≠ refused
  | .error _ => []

theorem nodup_registeredBy (dataId : Category → String) (result : Except FeedError FeedHandle) :
    (registeredBy dataId result).Nodup := by
  have all : Category.all.Nodup := by decide
  unfold registeredBy
  split
  · exact all
  · exact all.sublist (List.takeWhile_sublist _)
  · exact List.nodup_nil

def Identity.dataId (i : Identity) (app : String) (c : Category) : String :=
  DataId.write c i.tenantId i.facts.namespaceName app

def Identity.watch (i : Identity) (app : String) (c : Category) : Watch :=
  .ofCategory i.tenantId i.facts.namespaceName app c

@[simp] theorem Identity.dataId_watch (i : Identity) (app : String) (c : Category) :
    (i.watch app c).dataId = i.dataId app c := rfl

theorem Identity.awaitUntil_of_token {i : Identity} {token : String}
    (settled : i.session.token = some token) (deadline timeoutMs : Nat) (schedule : Schedule) :
    i.awaitUntil deadline timeoutMs schedule = ⟨.ok token, i, schedule⟩ := by
  cases schedule with
  | nil => simp only [awaitUntil, Promise.wait, settled]
  | cons due later => simp only [awaitUntil, settled]

theorem Identity.timeout_of_await {i : Identity} {instant timeoutMs : Nat} {schedule : Schedule}
    {timeout : SessionTimeout}
    (late : (i.await instant timeoutMs schedule).result = .error timeout) :
    timeout = .after timeoutMs := by
  rw [await] at late
  induction schedule generalizing i with
  | nil =>
    rw [awaitUntil, Promise.wait] at late
    cases settled : i.session.token with
    | some token => simp only [settled] at late; cases late
    | none => simp only [settled] at late; cases late; rfl
  | cons due later ih =>
    rw [awaitUntil] at late
    cases settled : i.session.token with
    | some token => simp only [settled] at late; cases late
    | none =>
      simp only [settled] at late
      split at late
      · exact ih late
      · cases late; rfl

namespace FeedSettings

variable {s : FeedSettings} {host app token : String} {state : FeedState}

theorem openFeed_of_failure {e : TransportError} (failure : state.transport.failure = some e) :
    s.openFeed host app token state =
      (.error (.sessionCreate e),
        { state with transport := { state.transport with failure := none } }) := by
  simp only [openFeed, Transport.createSession, failure]

theorem openFeed_of_none (failure : state.transport.failure = none) :
    s.openFeed host app token state =
      (((state.transport.session.subscribeAll (Category.all.map (state.identity.watch app))).1.map
          fun _ => ⟨s.sessionConfig host token, Category.all.map (state.identity.watch app)⟩),
        { state with transport := {
            session := (state.transport.session.subscribeAll
              (Category.all.map (state.identity.watch app))).2
            created := state.transport.created ++ [s.sessionConfig host token]
            failure := none } }) := by
  have watches : Category.all.map (.ofCategory state.identity.tenantId
      state.identity.facts.namespaceName app) = Category.all.map (state.identity.watch app) := rfl
  simp only [openFeed, Transport.createSession, failure, watches]
  rcases state.transport.session.subscribeAll (Category.all.map (state.identity.watch app)) with
    ⟨_ | _, session⟩ <;> rfl

theorem openFeed_error {e : FeedError}
    (failed : (s.openFeed host app token state).1 = .error e) :
    (∃ cause, e = .sessionCreate cause) ∨ ∃ dataId cause, e = .subscribe dataId cause := by
  cases failure : state.transport.failure with
  | some cause =>
    rw [openFeed_of_failure failure] at failed
    cases failed
    exact .inl ⟨cause, rfl⟩
  | none =>
    rw [openFeed_of_none failure] at failed
    rcases FeedSession.subscribeAll_result state.transport.session
      (Category.all.map (state.identity.watch app)) with ⟨ok, -⟩ | ⟨w, rest, -, -, error⟩
    · rw [ok] at failed
      cases failed
    · rw [error] at failed
      cases failed
      exact .inr ⟨w.dataId, _, rfl⟩

theorem identity_openFeed {after : FeedState} {result : Except FeedError FeedHandle}
    (opened : s.openFeed host app token state = (result, after)) :
    after.identity = state.identity := by
  cases failure : state.transport.failure with
  | none =>
    rw [openFeed_of_none failure, Prod.mk.injEq] at opened
    rw [← opened.2]
  | some e =>
    rw [openFeed_of_failure failure, Prod.mk.injEq] at opened
    rw [← opened.2]

theorem watches_openFeed {after : FeedState} {result : Except FeedError FeedHandle}
    (fresh : state.transport.session.watches = [])
    (opened : s.openFeed host app token state = (result, after)) :
    after.transport.session.watches =
      (registeredBy (state.identity.dataId app) result).map (state.identity.watch app) := by
  cases failure : state.transport.failure with
  | some e =>
    rw [openFeed_of_failure failure, Prod.mk.injEq] at opened
    obtain ⟨rfl, rfl⟩ := opened
    exact fresh
  | none =>
    rw [openFeed_of_none failure, Prod.mk.injEq] at opened
    obtain ⟨rfl, rfl⟩ := opened
    simp only [FeedSession.subscribeAll_session, fresh, List.nil_append]
    rcases FeedSession.subscribeAll_result state.transport.session
      (Category.all.map (state.identity.watch app)) with ⟨ok, all⟩ | ⟨w, rest, split, stop, error⟩
    · simp only [ok, all, Except.map, registeredBy]
    · -- No granted watch has the refused data id, so that data id is where the prefix ends.
      simp only [error, Except.map, registeredBy]
      have before : ∀ v ∈ state.transport.session.granted
          (Category.all.map (state.identity.watch app)), v.dataId ≠ w.dataId := by
        intro v mem same
        have free := FeedSession.not_refused_of_mem_granted mem
        rw [same, stop] at free
        exact absurd free (by decide)
      have cut : (Category.all.map (state.identity.watch app)).takeWhile
          (fun v => decide (v.dataId ≠ w.dataId)) =
            state.transport.session.granted (Category.all.map (state.identity.watch app)) := by
        conv => lhs; rw [split]
        rw [List.takeWhile_append_of_pos (by simpa using before)]
        simp
      rw [← cut, List.takeWhile_map]
      rfl

/-- How a start ends: at its settings, at the wait for the token, or after it, where everything
is done with the identity that the wait leaves. -/
theorem start_cases {instant : Nat} {schedule later : Schedule} {after : FeedState}
    {result : Except FeedError FeedHandle}
    (started : s.start host app instant schedule state = (result, after, later)) :
    (∃ fault, s.validate = .error fault ∧ result = .error (.settings fault) ∧ after = state ∧
      later = schedule) ∨
    ∃ awaited, awaited = state.identity.await instant s.sessionWaitMs.toNat schedule ∧
      s.validate = .ok () ∧ later = awaited.later ∧
      ((∃ timeout, awaited.result = .error timeout ∧ result = .error (.readiness timeout) ∧
          after = { state with identity := awaited.identity }) ∨
        ∃ token, awaited.result = .ok token ∧
          s.openFeed host app token { state with identity := awaited.identity } =
            (result, after)) := by
  unfold start at started
  cases valid : s.validate with
  | error fault =>
    simp only [valid, Prod.mk.injEq] at started
    obtain ⟨rfl, rfl, rfl⟩ := started
    exact .inl ⟨fault, rfl, rfl, rfl, rfl⟩
  | ok _ =>
    refine .inr ⟨_, rfl, rfl, ?_⟩
    cases awaited : (state.identity.await instant s.sessionWaitMs.toNat schedule).result with
    | error timeout =>
      simp only [valid, awaited, Prod.mk.injEq] at started
      obtain ⟨rfl, rfl, rfl⟩ := started
      exact ⟨rfl, .inl ⟨timeout, rfl, rfl, rfl⟩⟩
    | ok token =>
      simp only [valid, awaited, Prod.mk.injEq] at started
      obtain ⟨rfl, rfl, rfl⟩ := started
      exact ⟨rfl, .inr ⟨token, rfl, rfl⟩⟩

theorem start_error {instant : Nat} {schedule : Schedule} {e : FeedError}
    (failed : (s.start host app instant schedule state).1 = .error e) :
    (∃ fault, s.validate = .error fault ∧ e = .settings fault) ∨
    e = .readiness ⟨s.sessionWaitMs⟩ ∨ (∃ cause, e = .sessionCreate cause) ∨
    ∃ dataId cause, e = .subscribe dataId cause := by
  rcases started : s.start host app instant schedule state with ⟨result, after, later⟩
  rw [started] at failed
  cases failed
  rcases start_cases started with ⟨fault, invalid, same, -⟩ |
    ⟨awaited, rfl, -, -, ⟨timeout, late, same, -⟩ | ⟨token, -, opened⟩⟩
  · cases same
    exact .inl ⟨fault, invalid, rfl⟩
  · cases same
    rw [Identity.timeout_of_await late, SessionTimeout.after_toNat]
    exact .inr (.inl rfl)
  · exact .inr (.inr (openFeed_error (congrArg Prod.fst opened)))

section Awaited

variable {instant : Nat} {schedule later : Schedule} {identity : Identity}

theorem start_of_timeout (valid : s.validate = .ok ())
    (awaited : state.identity.await instant s.sessionWaitMs.toNat schedule =
      ⟨.error (.after s.sessionWaitMs.toNat), identity, later⟩) :
    s.start host app instant schedule state =
      (.error (.readiness ⟨s.sessionWaitMs⟩), { state with identity := identity }, later) := by
  rw [start, valid]
  simp only [awaited, SessionTimeout.after_toNat]

theorem start_of_awaited (valid : s.validate = .ok ())
    (awaited : state.identity.await instant s.sessionWaitMs.toNat schedule =
      ⟨.ok token, identity, later⟩) :
    s.start host app instant schedule state =
      ((s.openFeed host app token { state with identity := identity }).1,
        (s.openFeed host app token { state with identity := identity }).2, later) := by
  rw [start, valid]
  simp only [awaited]

end Awaited

theorem watches_start {instant : Nat} {schedule later : Schedule} {after : FeedState}
    {result : Except FeedError FeedHandle} (fresh : state.transport.session.watches = [])
    (started : s.start host app instant schedule state = (result, after, later)) :
    after.transport.session.watches =
      (registeredBy (after.identity.dataId app) result).map (after.identity.watch app) := by
  rcases start_cases started with ⟨fault, -, rfl, rfl, -⟩ |
    ⟨awaited, -, -, -, ⟨timeout, -, rfl, rfl⟩ | ⟨token, -, opened⟩⟩
  · exact fresh
  · exact fresh
  · rw [identity_openFeed opened]
    exact watches_openFeed fresh opened

theorem identity_start_of_token {instant : Nat} {schedule later : Schedule} {after : FeedState}
    {result : Except FeedError FeedHandle} {token : String}
    (delivered : state.identity.session.token = some token)
    (started : s.start host app instant schedule state = (result, after, later)) :
    after.identity = state.identity := by
  have still : (state.identity.await instant s.sessionWaitMs.toNat schedule).identity =
      state.identity := by
    rw [Identity.await, Identity.awaitUntil_of_token delivered]
  rcases start_cases started with ⟨fault, -, -, rfl, -⟩ |
    ⟨awaited, rfl, -, -, ⟨timeout, -, -, rfl⟩ | ⟨token, -, opened⟩⟩
  · rfl
  · exact still
  · exact (identity_openFeed opened).trans still

end FeedSettings
end RuleFeed
