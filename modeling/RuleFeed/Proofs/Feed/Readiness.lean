import Mathlib.Data.List.Induction
import RuleFeed.Proofs.Feed.Gate

/-!
No start passes the gate without the token. Every session and every watch in the transport was
added by one start, whose settings are valid and which went on with the first token delivered, not
before its delivery; its watches name the tenant of that instant. A start that no token reaches in
time ends with nothing added, and no call changes a fact of the identity.
-/
namespace RuleFeed.Gate

namespace Call

def token? : Call → Option String
  | .update u => u.token?
  | .start _ _ _ => none

def tenant? : Call → Option String
  | .update u => u.tenant?
  | .start _ _ _ => none

end Call

def firstDelivery? (calls : Calls) : Option (Nat × String) :=
  calls.findSome? fun c => c.2.token?.map fun token => (c.1, token)

def lastTenant (tenant : String) (calls : Calls) : String :=
  (calls.filterMap fun c => c.2.tenant?).getLast?.getD tenant

def tenantAt (tenant : String) (calls : Calls) (now : Nat) : String :=
  lastTenant tenant (calls.filter fun c => c.1 ≤ now)

def attempt? : Nat × Call → Option Attempt
  | (_, .update _) => none
  | (now, .start s host app) => some ⟨now, s, host, app⟩

def attempts (calls : Calls) : List Attempt := calls.filterMap attempt?

section Calls

variable {calls : Calls} {call : Nat × Call} {now d : Nat} {token tenant : String}

theorem firstDelivery?_snoc (calls : Calls) (call : Nat × Call) :
    firstDelivery? (calls ++ [call]) =
      (firstDelivery? calls).or (call.2.token?.map fun token => (call.1, token)) := by
  rw [firstDelivery?, List.findSome?_append, List.findSome?_singleton, firstDelivery?]

theorem exists_call_of_firstDelivery (delivered : firstDelivery? calls = some (d, token)) :
    (d, .update (.deliver token)) ∈ calls := by
  obtain ⟨before, ⟨now, c⟩, after, rfl, brings, -⟩ := List.findSome?_eq_some_iff.mp delivered
  rcases c with (tenantId | cid | t) | ⟨s, host, app⟩
  · cases brings
  · cases brings
  · cases brings
    simp
  · cases brings

theorem lastTenant_snoc (tenant : String) (calls : Calls) (call : Nat × Call) :
    lastTenant tenant (calls ++ [call]) = call.2.tenant?.getD (lastTenant tenant calls) := by
  rw [lastTenant, List.filterMap_append, lastTenant]
  cases sets : call.2.tenant? with
  | none => simp [sets]
  | some t => simp [sets]

theorem tenantAt_snoc_of_lt (early : now < call.1) :
    tenantAt tenant (calls ++ [call]) now = tenantAt tenant calls now := by
  rw [tenantAt, List.filter_append, List.filter_cons_of_neg (by simpa using early),
    List.filter_nil, List.append_nil, tenantAt]

theorem tenantAt_of_le (past : ∀ c ∈ calls, c.1 ≤ now) :
    tenantAt tenant calls now = lastTenant tenant calls := by
  rw [tenantAt, List.filter_eq_self.mpr (by simpa using past)]

theorem attempts_snoc (calls : Calls) (call : Nat × Call) :
    attempts (calls ++ [call]) = attempts calls ++ (attempt? call).toList := by
  rw [attempts, List.filterMap_append, attempts]
  cases begins : attempt? call <;> simp [begins]

end Calls

section Ledger

variable (facts : Facts) (tenant : String) (transport : Transport)

/-- Why a start ended as it did, by the calls. -/
inductive Justified (calls : Calls) : Ending → Prop where
  | invalid {a : Attempt} {fault : SettingsFault} (invalid : a.settings.validate = .error fault) :
    Justified calls ⟨a, a.begun, .error (.settings fault), [], []⟩
  | timeout {a : Attempt} (valid : a.settings.validate = .ok ())
      (late : ∀ d token, firstDelivery? calls = some (d, token) → a.deadline ≤ d) :
    Justified calls
      ⟨a, a.deadline, .error (.readiness ⟨a.settings.sessionWaitMs⟩), [], []⟩
  | opened {a : Attempt} {now d : Nat} {token : String} {result : Except FeedError FeedHandle}
      {sessions : List SessionConfig} {watches : List Watch}
      (valid : a.settings.validate = .ok ())
      (delivered : firstDelivery? calls = some (d, token)) (before : d ≤ now)
      (inTime : d ≤ a.deadline)
      (opened : Opened (a.settings.sessionConfig a.host token) (Category.all.map
        (.ofCategory (tenantAt tenant calls now) facts.namespaceName a.app))
        result sessions watches) :
    Justified calls ⟨a, now, result, sessions, watches⟩

variable {facts tenant}

theorem Justified.snoc {calls : Calls} {e : Ending} (justified : Justified facts tenant calls e)
    {call : Nat × Call} (early : e.instant < call.1) :
    Justified facts tenant (calls ++ [call]) e := by
  cases justified with
  | invalid invalid => exact .invalid invalid
  | timeout valid late =>
    refine .timeout valid fun d token delivered => ?_
    rw [firstDelivery?_snoc, Option.or_eq_some_iff] at delivered
    rcases delivered with before | ⟨-, now⟩
    · exact late d token before
    · -- The delivery is this very call, and the wait was over before it.
      obtain ⟨t, -, same⟩ := Option.map_eq_some_iff.mp now
      cases same
      exact Nat.le_of_lt early
  | opened valid delivered before inTime opened =>
    have still := (firstDelivery?_snoc calls call).trans (by rw [delivered, Option.some_or])
    refine .opened valid still before inTime ?_
    rwa [tenantAt_snoc_of_lt early]

variable (facts tenant)

/-- The endings account for all that the transport holds and, with those who are pending, for
all starts that were made. -/
structure Ledger (calls : Calls) (made pending : List Attempt) (g : Gate) : Prop where
  created : g.feed.transport.created = transport.created ++ g.endings.flatMap Ending.sessions
  watches : g.feed.transport.session.watches =
    transport.session.watches ++ g.endings.flatMap Ending.watches
  once : (g.endings.map Ending.attempt ++ pending).Perm made
  justified : ∀ e ∈ g.endings, Justified facts tenant calls e

variable {facts tenant transport}

namespace Ledger

variable {calls : Calls} {made pending : List Attempt} {g : Gate}

theorem snoc (ledger : Ledger facts tenant transport calls made pending g) {call : Nat × Call}
    (early : ∀ e ∈ g.endings, e.instant < call.1) :
    Ledger facts tenant transport (calls ++ [call]) made pending g :=
  { ledger with justified := fun e mem => (ledger.justified e mem).snoc (early e mem) }

theorem join (ledger : Ledger facts tenant transport calls made pending g) (a : Attempt) :
    Ledger facts tenant transport calls (made ++ [a]) (pending ++ [a]) g :=
  { ledger with
    once := by
      rw [← List.append_assoc]
      exact ledger.once.append_right [a] }

theorem conclude {all : List Attempt} (ledger : Ledger facts tenant transport calls made all g)
    {g' : Gate} (es : List Ending) (endings : g'.endings = g.endings ++ es)
    (created : g'.feed.transport.created =
      g.feed.transport.created ++ es.flatMap Ending.sessions)
    (watches : g'.feed.transport.session.watches =
      g.feed.transport.session.watches ++ es.flatMap Ending.watches)
    (split : (es.map Ending.attempt ++ pending).Perm all)
    (justified : ∀ e ∈ es, Justified facts tenant calls e) :
    Ledger facts tenant transport calls made pending g' where
  created := by rw [created, endings, ledger.created, List.flatMap_append, List.append_assoc]
  watches := by rw [watches, endings, ledger.watches, List.flatMap_append, List.append_assoc]
  once := by
    rw [endings, List.map_append, List.append_assoc]
    exact (split.append_left _).trans ledger.once
  justified := by
    rw [endings]
    exact List.forall_mem_append.mpr ⟨ledger.justified, justified⟩

theorem expire (ledger : Ledger facts tenant transport calls made g.waiting g)
    {elapsed : Attempt → Bool} (late : ∀ a ∈ g.waiting, elapsed a = true →
      a.settings.validate = .ok () ∧
        ∀ d token, firstDelivery? calls = some (d, token) → a.deadline ≤ d) :
    Ledger facts tenant transport calls made (g.expire elapsed).waiting (g.expire elapsed) := by
  refine ledger.conclude _ rfl ?_ ?_ ?_ ?_
  · simp [Gate.expire, List.flatMap_map]
  · simp [Gate.expire, List.flatMap_map]
  · rw [List.map_map]
    have own : (Ending.attempt ∘ fun a : Attempt => (⟨a, a.deadline,
        .error (.readiness ⟨a.settings.sessionWaitMs⟩), [], []⟩ : Ending)) = id := rfl
    rw [own, List.map_id]
    exact List.filter_append_perm _ _
  · intro e mem
    obtain ⟨a, lapsed, rfl⟩ := List.mem_map.mp mem
    obtain ⟨waits, gone⟩ := List.mem_filter.mp lapsed
    obtain ⟨valid, late⟩ := late a waits gone
    exact .timeout valid late

theorem enter (ledger : Ledger facts tenant transport calls made g.waiting g) (a : Attempt) :
    Ledger facts tenant transport calls (made ++ [a]) (g.enter a).waiting (g.enter a) := by
  rw [Gate.enter]
  cases valid : a.settings.validate with
  | ok _ =>
    simp only
    exact { ledger.join a with }
  | error fault =>
    refine (ledger.join a).conclude [⟨a, a.begun, .error (.settings fault), [], []⟩] rfl
      (List.append_nil _).symm (List.append_nil _).symm ?_ ?_
    · exact List.perm_append_comm
    · exact List.forall_mem_singleton.mpr (.invalid valid)

theorem proceed {a : Attempt} (ledger : Ledger facts tenant transport calls made (a :: pending) g)
    {now d : Nat} {token : String} (valid : a.settings.validate = .ok ())
    (delivered : firstDelivery? calls = some (d, token)) (before : d ≤ now)
    (inTime : d ≤ a.deadline) (names : g.feed.identity.tenantId = tenantAt tenant calls now)
    (space : g.feed.identity.facts = facts) :
    Ledger facts tenant transport calls made pending (g.proceed now token a) := by
  obtain ⟨-, sessions, watches, created, registered, opened⟩ :=
    a.settings.opened_openFeed a.host a.app token g.feed
  have all : Category.all.map (g.feed.identity.watch a.app) = Category.all.map
      (.ofCategory (tenantAt tenant calls now) facts.namespaceName a.app) := by
    rw [← names, ← space]
    rfl
  rw [all] at opened
  refine ledger.conclude [⟨a, now, _, sessions, watches⟩] ?_ ?_ ?_ (List.Perm.refl _)
    (List.forall_mem_singleton.mpr (.opened valid delivered before inTime opened))
  · simp only [Gate.proceed, created, registered, List.drop_left]
  · exact created.trans (by rw [List.flatMap_singleton])
  · exact registered.trans (by rw [List.flatMap_singleton])

theorem proceedAll {as : List Attempt} (ledger : Ledger facts tenant transport calls made as g)
    {now d : Nat} {token : String}
    (ready : ∀ a ∈ as, a.settings.validate = .ok () ∧ now ≤ a.deadline)
    (delivered : firstDelivery? calls = some (d, token)) (before : d ≤ now)
    (names : g.feed.identity.tenantId = tenantAt tenant calls now)
    (space : g.feed.identity.facts = facts) :
    Ledger facts tenant transport calls made []
      (g.proceedAll now token as) := by
  induction as generalizing g with
  | nil => exact ledger
  | cons a as ih =>
    obtain ⟨⟨valid, inTime⟩, rest⟩ := List.forall_mem_cons.mp ready
    have next := ledger.proceed valid delivered before (Nat.le_trans before inTime) names space
    have identity := (a.settings.opened_openFeed a.host a.app token g.feed).1
    exact ih next rest ((congrArg Identity.tenantId identity).trans names)
      ((congrArg Identity.facts identity).trans space)

end Ledger

end Ledger

section Run

variable (facts : Facts) (tenant : String) (transport : Transport)

structure Identified (calls : Calls) (i : Identity) : Prop where
  facts : i.facts = facts
  tenant : i.tenantId = lastTenant tenant calls
  token : i.session.token = (firstDelivery? calls).map Prod.snd

structure Kept (calls : Calls) (g : Gate) : Prop where
  identified : Identified facts tenant calls g.feed.identity
  ledger : Ledger facts tenant transport calls (attempts calls) g.waiting g
  past : ∀ e ∈ g.endings, ∃ c ∈ calls, e.instant ≤ c.1
  valid : ∀ a ∈ g.waiting, a.settings.validate = .ok ()
  calm : g.feed.identity.session.token.isSome → g.waiting = []

structure Pending (calls : Calls) (now : Nat) (g : Gate) : Prop where
  identified : Identified facts tenant calls g.feed.identity
  ledger : Ledger facts tenant transport calls (attempts calls) g.waiting g
  past : ∀ e ∈ g.endings, e.instant ≤ now
  ready : ∀ a ∈ g.waiting, a.settings.validate = .ok () ∧ now ≤ a.deadline

variable {facts tenant transport}

theorem Identified.snoc_update {calls : Calls} {i : Identity}
    (identified : Identified facts tenant calls i) (now : Nat) (u : Update) :
    Identified facts tenant (calls ++ [(now, .update u)]) (i.update u) where
  facts := (i.facts_update u).trans identified.facts
  tenant := by rw [i.tenantId_update, identified.tenant, lastTenant_snoc, Call.tenant?]
  token := by
    rw [i.token_update, identified.token, firstDelivery?_snoc, Call.token?]
    cases firstDelivery? calls with
    | some first => rfl
    | none => cases u.token? <;> rfl

theorem Identified.snoc_start {calls : Calls} {i : Identity}
    (identified : Identified facts tenant calls i) (now : Nat) (s : FeedSettings)
    (host app : String) :
    Identified facts tenant (calls ++ [(now, .start s host app)]) i where
  facts := identified.facts
  tenant := by
    rw [lastTenant_snoc]
    exact identified.tenant
  token := by
    rw [identified.token, firstDelivery?_snoc]
    exact congrArg (Option.map Prod.snd) Option.or_none.symm

theorem waiting_proceedAll (g : Gate) (now : Nat) (token : String) (as : List Attempt) :
    (g.proceedAll now token as).waiting = g.waiting := by
  induction as generalizing g with
  | nil => rfl
  | cons a as ih => exact ih (g.proceed now token a)

theorem identity_proceedAll (g : Gate) (now : Nat) (token : String) (as : List Attempt) :
    (g.proceedAll now token as).feed.identity = g.feed.identity := by
  induction as generalizing g with
  | nil => rfl
  | cons a as ih =>
    exact (ih (g.proceed now token a)).trans
      (a.settings.opened_openFeed a.host a.app token g.feed).1

theorem past_proceedAll {g : Gate} {now : Nat} (past : ∀ e ∈ g.endings, e.instant ≤ now)
    (token : String) (as : List Attempt) :
    ∀ e ∈ (g.proceedAll now token as).endings, e.instant ≤ now := by
  induction as generalizing g with
  | nil => exact past
  | cons a as ih =>
    exact ih (List.forall_mem_append.mpr ⟨past, List.forall_mem_singleton.mpr (Nat.le_refl now)⟩)

theorem Pending.wake {calls : Calls} {now : Nat} {g : Gate}
    (pending : Pending facts tenant transport calls now g) {call : Nat × Call}
    (last : call ∈ calls) (instant : call.1 = now) (all : ∀ c ∈ calls, c.1 ≤ now)
    (σ : Scheduler) : Kept facts tenant transport calls (g.wake σ now) := by
  obtain ⟨identified, ledger, past, ready⟩ := pending
  rw [Gate.wake]
  cases token : g.feed.identity.session.token with
  | none =>
    exact ⟨identified, ledger, fun e mem => ⟨call, last, instant ▸ past e mem⟩,
      fun a waits => (ready a waits).1, fun settled => by rw [token] at settled; cases settled⟩
  | some t =>
    obtain ⟨⟨d, t'⟩, delivered, rfl⟩ :=
      Option.map_eq_some_iff.mp (identified.token.symm.trans token)
    have before := all _ (exists_call_of_firstDelivery delivered)
    -- Those who wait become those who are pending, in the order in which they go on.
    have nobody := waiting_proceedAll { g with waiting := [] } now t' (σ.order g.waiting)
    have same := identity_proceedAll { g with waiting := [] } now t' (σ.order g.waiting)
    have past' := past_proceedAll (g := { g with waiting := [] }) past t' (σ.order g.waiting)
    have ordered : Ledger facts tenant transport calls (attempts calls) (σ.order g.waiting)
        { g with waiting := [] } :=
      { ledger with once := ((σ.order_perm _).append_left _).trans ledger.once }
    have done := ordered.proceedAll
      (fun a mem => ready a ((σ.order_perm _).mem_iff.mp mem)) delivered before
      (identified.tenant.trans (tenantAt_of_le all).symm) identified.facts
    refine ⟨same ▸ identified, nobody ▸ done, fun e mem => ?_, fun a waits => ?_, fun _ => nobody⟩
    · exact ⟨call, last, instant ▸ past' e mem⟩
    · rw [nobody] at waits
      cases waits

theorem Kept.firstDelivery?_of_mem {calls : Calls} {g : Gate}
    (kept : Kept facts tenant transport calls g) {a : Attempt} (waits : a ∈ g.waiting) :
    firstDelivery? calls = none := by
  cases delivered : firstDelivery? calls with
  | none => rfl
  | some delivery =>
    have settled := kept.calm (by rw [kept.identified.token, delivered]; rfl)
    rw [settled] at waits
    cases waits

/-- Waits that are over end before a call; whoever still waits does so rightly. -/
theorem Kept.expire {calls : Calls} {g : Gate} (kept : Kept facts tenant transport calls g)
    {call : Nat × Call} (early : ∀ c ∈ calls, c.1 < call.1) (σ : Scheduler) :
    Ledger facts tenant transport (calls ++ [call]) (attempts calls)
        (g.expire (σ.lapsed call.1)).waiting (g.expire (σ.lapsed call.1)) ∧
      (∀ e ∈ (g.expire (σ.lapsed call.1)).endings, e.instant ≤ call.1) ∧
      ∀ a ∈ (g.expire (σ.lapsed call.1)).waiting,
        a.settings.validate = .ok () ∧ call.1 ≤ a.deadline := by
  have past (e : Ending) (mem : e ∈ g.endings) : e.instant < call.1 := by
    obtain ⟨c, known, le⟩ := kept.past e mem
    exact Nat.lt_of_le_of_lt le (early c known)
  refine ⟨(kept.ledger.snoc past).expire fun a waits lapsed =>
    ⟨kept.valid a waits, fun d token delivered => ?_⟩, ?_, fun a mem => ?_⟩
  · -- Somebody waits, so no token was delivered before this call.
    rw [firstDelivery?_snoc, kept.firstDelivery?_of_mem waits, Option.none_or] at delivered
    obtain ⟨t, -, same⟩ := Option.map_eq_some_iff.mp delivered
    cases same
    exact Scheduler.deadline_le_of_lapsed lapsed
  · refine List.forall_mem_append.mpr ⟨fun e mem => Nat.le_of_lt (past e mem), fun e mem => ?_⟩
    obtain ⟨a, lapsed, rfl⟩ := List.mem_map.mp mem
    exact Scheduler.deadline_le_of_lapsed (List.mem_filter.mp lapsed).2
  · obtain ⟨waits, stays⟩ := List.mem_filter.mp mem
    rw [Bool.not_eq_true'] at stays
    exact ⟨kept.valid a waits, Scheduler.le_deadline_of_not_lapsed stays⟩

theorem Kept.step {calls : Calls} {g : Gate} (kept : Kept facts tenant transport calls g)
    {call : Nat × Call} (early : ∀ c ∈ calls, c.1 < call.1) (σ : Scheduler) :
    Kept facts tenant transport (calls ++ [call]) (g.step σ call) := by
  obtain ⟨ledger, past, ready⟩ := kept.expire early σ
  have all : ∀ c ∈ calls ++ [call], c.1 ≤ call.1 :=
    List.forall_mem_append.mpr ⟨fun c mem => Nat.le_of_lt (early c mem),
      List.forall_mem_singleton.mpr (Nat.le_refl _)⟩
  have last : call ∈ calls ++ [call] := List.mem_append_right _ (List.mem_singleton_self _)
  obtain ⟨now, u | ⟨s, host, app⟩⟩ := call
  · have made : attempts (calls ++ [(now, .update u)]) = attempts calls :=
      (attempts_snoc _ _).trans (List.append_nil _)
    have pending : Pending facts tenant transport (calls ++ [(now, .update u)]) now
        ((g.expire (σ.lapsed now)).update u) :=
      ⟨kept.identified.snoc_update now u, made ▸ { ledger with }, past, ready⟩
    exact pending.wake last rfl all σ
  · have identified := kept.identified.snoc_start now s host app
    have entered := ledger.enter ⟨now, s, host, app⟩
    have pending : Pending facts tenant transport (calls ++ [(now, .start s host app)]) now
        ((g.expire (σ.lapsed now)).enter ⟨now, s, host, app⟩) := by
      have made : attempts (calls ++ [(now, .start s host app)]) =
          attempts calls ++ [⟨now, s, host, app⟩] := attempts_snoc _ _
      rw [← made] at entered
      rw [Gate.enter] at entered ⊢
      cases valid : s.validate with
      | error fault =>
        simp only [valid] at entered ⊢
        exact ⟨identified, entered, List.forall_mem_append.mpr
          ⟨past, List.forall_mem_singleton.mpr (Nat.le_refl _)⟩, ready⟩
      | ok _ =>
        simp only [valid] at entered ⊢
        exact ⟨identified, entered, past, List.forall_mem_append.mpr
          ⟨ready, List.forall_mem_singleton.mpr ⟨valid, Nat.le_add_right _ _⟩⟩⟩
    exact pending.wake last rfl all σ

theorem kept_first : Kept facts tenant transport [] (first ⟨.ofFacts facts tenant, transport⟩) where
  identified := ⟨rfl, rfl, rfl⟩
  ledger := ⟨(List.append_nil _).symm, (List.append_nil _).symm, List.Perm.nil,
    List.forall_mem_nil _⟩
  past := List.forall_mem_nil _
  valid := List.forall_mem_nil _
  calm := fun _ => rfl

theorem kept_after (transport : Transport) (σ : Scheduler) {calls : Calls}
    (ordered : (calls.map Prod.fst).Pairwise (· < ·)) :
    Kept facts tenant transport calls
      ((first ⟨.ofFacts facts tenant, transport⟩).after σ calls) := by
  induction calls using List.reverseRecOn with
  | nil => exact kept_first
  | append_singleton calls call ih =>
    rw [List.map_append, List.pairwise_append] at ordered
    have early (c : Nat × Call) (mem : c ∈ calls) : c.1 < call.1 :=
      ordered.2.2 c.1 (List.mem_map_of_mem mem) call.1 (List.mem_singleton_self _)
    rw [after, List.foldl_append]
    exact (ih ordered.1).step early σ

theorem Kept.ledger_finish {calls : Calls} {g : Gate}
    (kept : Kept facts tenant transport calls g) :
    Ledger facts tenant transport calls (attempts calls) [] (g.expire fun _ => true) := by
  have nobody : (g.expire fun _ => true).waiting = [] := List.filter_eq_nil_iff.mpr (by simp)
  rw [← nobody]
  refine kept.ledger.expire fun a waits _ => ⟨kept.valid a waits, fun d token delivered => ?_⟩
  cases (kept.firstDelivery?_of_mem waits).symm.trans delivered

end Run

structure Guarded (facts : Facts) (tenant : String) (transport : Transport) (calls : Calls)
    (g : Gate) : Prop where
  created : g.feed.transport.created = transport.created ++ g.endings.flatMap Ending.sessions
  watches : g.feed.transport.session.watches =
    transport.session.watches ++ g.endings.flatMap Ending.watches
  once : (g.endings.map Ending.attempt).Perm (attempts calls)
  token : g.feed.identity.session.token = (firstDelivery? calls).map Prod.snd
  session {e : Ending} : e ∈ g.endings → ∀ config ∈ e.sessions,
    e.attempt.settings.validate = .ok () ∧ ∃ d token, firstDelivery? calls = some (d, token) ∧
      d ≤ e.instant ∧ config.namespaceId = token
  timeout {a : Attempt} : a ∈ attempts calls → a.settings.validate = .ok () →
    (∀ d token, (d, .update (.deliver token)) ∈ calls → a.deadline < d) →
      ⟨a, a.deadline, .error (.readiness ⟨a.settings.sessionWaitMs⟩), [], []⟩ ∈ g.endings
  names {e : Ending} : e ∈ g.endings → ∃ all : List Watch,
    all = Category.all.map
      (.ofCategory (tenantAt tenant calls e.instant) facts.namespaceName e.attempt.app) ∧
    e.watches <+: all ∧ ∀ h, e.result = .ok h →
      h.subscriptions = all ∧ e.watches = all ∧ e.sessions = [h.config]

section Guarded

variable {facts : Facts} {tenant : String} {calls : Calls} {e : Ending}

theorem Justified.session (justified : Justified facts tenant calls e) :
    ∀ config ∈ e.sessions, e.attempt.settings.validate = .ok () ∧
      ∃ d token, firstDelivery? calls = some (d, token) ∧ d ≤ e.instant ∧
        config.namespaceId = token := by
  intro config mem
  cases justified with
  | invalid invalid => cases mem
  | timeout valid late => cases mem
  | opened valid delivered before inTime opened =>
    refine ⟨valid, _, _, delivered, before, ?_⟩
    cases opened with
    | refused e => cases mem
    | cut e prefixed =>
      cases List.mem_singleton.mp mem
      rfl
    | complete =>
      cases List.mem_singleton.mp mem
      rfl

theorem Justified.names (justified : Justified facts tenant calls e) : ∃ all : List Watch,
    all = Category.all.map
      (.ofCategory (tenantAt tenant calls e.instant) facts.namespaceName e.attempt.app) ∧
    e.watches <+: all ∧ ∀ h, e.result = .ok h →
      h.subscriptions = all ∧ e.watches = all ∧ e.sessions = [h.config] := by
  refine ⟨_, rfl, ?_⟩
  cases justified with
  | invalid invalid => exact ⟨List.nil_prefix, nofun⟩
  | timeout valid late => exact ⟨List.nil_prefix, nofun⟩
  | opened valid delivered before inTime opened =>
    cases opened with
    | refused e => exact ⟨List.nil_prefix, nofun⟩
    | cut e before => exact ⟨before, nofun⟩
    | complete =>
      refine ⟨List.prefix_rfl, fun h same => ?_⟩
      cases same
      exact ⟨rfl, rfl, rfl⟩

theorem Justified.eq_of_late (justified : Justified facts tenant calls e)
    (valid : e.attempt.settings.validate = .ok ())
    (late : ∀ d token, (d, .update (.deliver token)) ∈ calls → e.attempt.deadline < d) :
    e = ⟨e.attempt, e.attempt.deadline,
      .error (.readiness ⟨e.attempt.settings.sessionWaitMs⟩), [], []⟩ := by
  cases justified with
  | invalid invalid => cases invalid.symm.trans valid
  | timeout valid late => rfl
  | opened valid delivered before inTime opened =>
    exact absurd inTime (Nat.not_le.mpr (late _ _ (exists_call_of_firstDelivery delivered)))

theorem Kept.guarded {transport : Transport} {g : Gate}
    (kept : Kept facts tenant transport calls g) :
    Guarded facts tenant transport calls (g.expire fun _ => true) := by
  have ledger := kept.ledger_finish
  refine ⟨ledger.created, ledger.watches, by simpa using ledger.once, kept.identified.token,
    fun mem => (ledger.justified _ mem).session, fun made valid late => ?_,
    fun mem => (ledger.justified _ mem).names⟩
  have ended := ledger.once.mem_iff.mpr made
  rw [List.append_nil] at ended
  obtain ⟨e, mem, rfl⟩ := List.mem_map.mp ended
  rw [← (ledger.justified e mem).eq_of_late valid late]
  exact mem

end Guarded

/-- No order and no timing of the calls lets a start pass without the token. -/
theorem run_guarded (σ : Scheduler) (facts : Facts) (tenant : String) (transport : Transport)
    (calls : Calls) (ordered : (calls.map Prod.fst).Pairwise (· < ·)) :
    Guarded facts tenant transport calls (run σ ⟨.ofFacts facts tenant, transport⟩ calls) ∧
      ∀ n, ((first ⟨.ofFacts facts tenant, transport⟩).after σ
        (calls.take n)).feed.identity.facts = facts := by
  refine ⟨(kept_after transport σ ordered).guarded, fun n => ?_⟩
  have part : ((calls.take n).map Prod.fst).Pairwise (· < ·) :=
    ordered.sublist ((List.take_sublist n calls).map Prod.fst)
  exact (kept_after transport σ part).identified.facts

def briefly : FeedSettings := { FeedSettings.standard with sessionWaitMs := 5 }

/-- Two starts wait, one of them too briefly, while the tenant changes. -/
def changingTenant : Calls :=
  [(1, .update (.setTenant "first")), (2, .start briefly "host" "app"),
    (3, .start .standard "host" "app"), (5, .update (.setTenant "second")),
    (10, .update (.deliver "token")), (11, .update (.deliver "late")),
    (12, .start briefly "host" "other")]

def inOrder : Scheduler := ⟨id, fun _ => List.Perm.refl _, fun _ => false⟩

theorem run_guarded_changingTenant :
    (run inOrder ⟨.ofFacts .blank "", .empty⟩ changingTenant).feed.identity.session.token =
        some "token" ∧
      ⟨⟨2, briefly, "host", "app"⟩, 7, .error (.readiness ⟨5⟩), [], []⟩ ∈
        (run inOrder ⟨.ofFacts .blank "", .empty⟩ changingTenant).endings ∧
      tenantAt "" changingTenant 10 = "second" := by
  obtain ⟨guarded, -⟩ := run_guarded inOrder .blank "" .empty changingTenant (by decide)
  refine ⟨guarded.token, ?_, by decide⟩
  refine guarded.timeout (a := ⟨2, briefly, "host", "app"⟩) (by decide) (by decide) ?_
  intro d token delivered
  simp only [changingTenant, List.mem_cons, Prod.mk.injEq, Call.update.injEq, reduceCtorEq,
    Update.deliver.injEq, and_false, false_or, List.not_mem_nil, or_false] at delivered
  rcases delivered with ⟨rfl, -⟩ | ⟨rfl, -⟩ <;> decide

end RuleFeed.Gate
