import RuleFeed.Proofs.Bootstrap
import RuleFeed.Proofs.Config.Layers
import RuleFeed.Proofs.Feed.Registration
import RuleFeed.Proofs.Feed.Wait

/-!
Both steps of an agent's start as one launch. The configuration, the identity, the token, the
session and the subscriptions are its stages, in this order, and a launch ends at the first that
fails. What the later stages use comes from the earlier ones: the host from the region of the
identity, the session from the token, the data ids from the tenant at the instant of the token.
-/
namespace RuleFeed

open Gate

theorem FeedSettings.sessionWait_bounds {s : FeedSettings} (valid : s.validate = .ok ()) :
    1 ≤ s.sessionWaitMs.toNat ∧ s.sessionWaitMs.toNat ≤ 600000 := by
  obtain ⟨-, -, -, nonzero, short⟩ := (validate_eq_ok_iff s).mp valid
  rw [ne_eq, ← UInt64.toNat_inj, UInt64.toNat_zero] at nonzero
  exact ⟨Nat.pos_of_ne_zero nonzero, UInt64.le_iff_toNat_le.mp short⟩

namespace AgentConfig

def waitMs (c : AgentConfig) : Nat := c.feed.sessionWaitMs.toNat

def sessionOn (c : AgentConfig) (host token : String) : SessionConfig where
  namespaceId := token
  endpoint := host ++ ":" ++ Decimal.write c.feed.transportPort.toNat
  timeoutMs := c.feed.timeoutMs
  listenIntervalMs := c.feed.listenIntervalMs

def dataIdAt (c : AgentConfig) (i : Identity) (schedule : Schedule) (now : Nat) (k : Category) :
    String :=
  DataId.write k (tenantAt i.tenantId (updates schedule) now) c.namespaceName c.appName

end AgentConfig

namespace Agent

/-- What a launch leaves: its answer, the identity if it came to one, the transport, and the
updates of the identity that are due later. -/
structure Launched where
  result : Except AgentError Agent
  identity : Option Identity
  transport : Transport
  later : Schedule

/-- The two steps with one configuration. The identity has its updates from when it is resolved,
and the second step begins at an instant of that schedule. -/
def launch (c : AgentConfig) (discovery : Discovery) (host : Host) (transport : Transport)
    (begun : Nat) (schedule : Schedule) : Launched :=
  match bootstrap c discovery host with
  | .error e => ⟨.error e, none, transport, schedule⟩
  | .ok i =>
    let (result, state, later) :=
      start c begun (schedule.ahead begun) ⟨i.asOf schedule begun, transport⟩
    ⟨result, some state.identity, state.transport, later⟩

structure Identified (c : AgentConfig) (discovery : Discovery) (host : Host) (i : Identity)
    (endpoint : String) : Prop where
  valid : c.validate = .ok ()
  resolution : c.bootstrapRequest.Resolution discovery host c.endpointTable (.ok i)
  serves : c.endpointTable.Serves c.deployEnv i.facts.regionId c.secureTransport endpoint

/-- The wait ends with the first token that is delivered, at the instant of that or, if it was
delivered before the wait began, at once. -/
inductive Ready (c : AgentConfig) (begun : Nat) (schedule : Schedule) : String → Nat → Prop where
  | first {d : Nat} {token : String}
      (delivered : firstDelivery? (updates schedule) = some (d, token))
      (inTime : d ≤ begun + c.waitMs) :
    Ready c begun schedule token (max begun d)

/-- How a launch ends. A stage is reached past those above it. -/
inductive Launches (c : AgentConfig) (discovery : Discovery) (host : Host) (transport : Transport)
    (begun : Nat) (schedule : Schedule) : Launched → Prop where
  | misconfigured {fault : ConfigFault} (invalid : c.validate = .error fault) :
    Launches c discovery host transport begun schedule
      ⟨.error (.config fault), none, transport, schedule⟩
  | unidentified {cause : BootstrapError} (valid : c.validate = .ok ())
      (failed : c.bootstrapRequest.Resolution discovery host c.endpointTable (.error cause)) :
    Launches c discovery host transport begun schedule
      ⟨.error (.bootstrap cause), none, transport, schedule⟩
  | unready {i : Identity} {endpoint : String}
      (identified : Identified c discovery host i endpoint)
      (late : ∀ d token, firstDelivery? (updates schedule) = some (d, token) →
        begun + c.waitMs < d) :
    Launches c discovery host transport begun schedule
      ⟨.error (.sync (.readiness ⟨c.feed.sessionWaitMs⟩)),
        some (i.asOf schedule (begun + c.waitMs)), transport,
        schedule.ahead (begun + c.waitMs)⟩
  | sessionless {i : Identity} {endpoint token : String} {now : Nat} {cause : TransportError}
      (identified : Identified c discovery host i endpoint)
      (ready : Ready c begun schedule token now)
      (failure : transport.failure = some cause) :
    Launches c discovery host transport begun schedule
      ⟨.error (.sync (.sessionCreate cause)), some (i.asOf schedule now),
        { transport with failure := none }, schedule.ahead now⟩
  | refused {i : Identity} {endpoint token : String} {now : Nat} {k : Category}
      {registered rest : List Category}
      (identified : Identified c discovery host i endpoint)
      (ready : Ready c begun schedule token now)
      (free : transport.failure = none)
      (registers : Registers transport.session.refused (c.dataIdAt i schedule now) registered
        (k :: rest)) :
    Launches c discovery host transport begun schedule
      ⟨.error (.sync (.subscribe (c.dataIdAt i schedule now k)
          (.rejected ("subscription to " ++ c.dataIdAt i schedule now k ++ " refused")))),
        some (i.asOf schedule now),
        transport.opened (c.sessionOn endpoint token)
          (registered.map fun k => ⟨"ahas-sentinel", c.dataIdAt i schedule now k, k⟩),
        schedule.ahead now⟩
  | running {i : Identity} {endpoint token : String} {now : Nat}
      (identified : Identified c discovery host i endpoint)
      (ready : Ready c begun schedule token now)
      (free : transport.failure = none)
      (granted : ∀ k, c.dataIdAt i schedule now k ∉ transport.session.refused) :
    Launches c discovery host transport begun schedule
      ⟨.ok ⟨c, i.asOf schedule now,
          .complete (c.sessionOn endpoint token) (c.dataIdAt i schedule now)⟩,
        some (i.asOf schedule now),
        transport.opened (c.sessionOn endpoint token)
          (Category.all.map fun k => ⟨"ahas-sentinel", c.dataIdAt i schedule now k, k⟩),
        schedule.ahead now⟩

section Launch

variable {c : AgentConfig} {discovery : Discovery} {host : Host} {transport : Transport}
  {begun : Nat} {schedule : Schedule} {i : Identity} {endpoint token : String} {now : Nat}

theorem bootstrap_of_invalid {fault : ConfigFault} (invalid : c.validate = .error fault) :
    bootstrap c discovery host = .error (.config fault) := by
  rw [bootstrap, invalid]
  rfl

theorem bootstrap_of_resolution {result : Except BootstrapError Identity}
    (valid : c.validate = .ok ())
    (resolution : c.bootstrapRequest.Resolution discovery host c.endpointTable result) :
    bootstrap c discovery host = result.mapError .bootstrap := by
  rw [bootstrap, valid, BootstrapRequest.resolve_of_resolution resolution]
  rfl

namespace Identified

variable (identified : Identified c discovery host i endpoint)

include identified

theorem feed_valid : c.feed.validate = .ok () :=
  ((AgentConfig.validate_eq_ok_iff c).mp identified.valid).2.2.2.2

theorem endpoint_eq : i.facts.endpoint = endpoint :=
  identified.resolution.serves.unique identified.serves

theorem unsettled : i.session.token = none := identified.resolution.placed.token

theorem namespaceName : i.facts.namespaceName = c.namespaceName :=
  identified.resolution.placed.namespaceName

theorem dataId_asOf (now : Nat) :
    (i.asOf schedule now).dataId c.appName = c.dataIdAt i schedule now := by
  funext k
  rw [Identity.dataId, Identity.tenantId_asOf, Identity.facts_asOf, identified.namespaceName]
  rfl

theorem watch_asOf (now : Nat) : (i.asOf schedule now).watch c.appName =
    fun k => ⟨"ahas-sentinel", c.dataIdAt i schedule now k, k⟩ := by
  funext k
  rw [← identified.dataId_asOf now]
  rfl

theorem launch_eq {after : FeedState} {later : Schedule} {result : Except FeedError FeedHandle}
    (fed : c.feed.start endpoint c.appName begun (schedule.ahead begun)
      ⟨i.asOf schedule begun, transport⟩ = (result, after, later)) :
    launch c discovery host transport begun schedule =
      ⟨(result.map fun handle => ⟨c, after.identity, handle⟩).mapError .sync,
        some after.identity, after.transport, later⟩ := by
  have resolved : bootstrap c discovery host = .ok i :=
    bootstrap_of_resolution identified.valid identified.resolution
  have host : (i.asOf schedule begun).facts.endpoint = endpoint := by
    rw [Identity.facts_asOf, identified.endpoint_eq]
  rw [← host] at fed
  simp only [launch, resolved, start_of_valid identified.valid fed]

theorem launch_of_ready (ordered : schedule.Ordered)
    (ready : Ready c begun schedule token now) {result : Except FeedError FeedHandle}
    {after : FeedState}
    (opened : c.feed.openFeed endpoint c.appName token ⟨i.asOf schedule now, transport⟩ =
      (result, after)) :
    launch c discovery host transport begun schedule =
      ⟨(result.map fun handle => ⟨c, after.identity, handle⟩).mapError .sync,
        some after.identity, after.transport, schedule.ahead now⟩ := by
  cases ready with
  | first delivered inTime =>
  refine identified.launch_eq ?_
  rw [FeedSettings.start_of_awaited identified.feed_valid
    (Identity.await_of_delivered ordered identified.unsettled delivered inTime), opened]

theorem launch_of_registers (ordered : schedule.Ordered)
    (ready : Ready c begun schedule token now) (free : transport.failure = none)
    {registered rest : List Category}
    (registers : Registers transport.session.refused (c.dataIdAt i schedule now) registered
      rest) :
    launch c discovery host transport begun schedule =
      ⟨((FeedSettings.answer (c.sessionOn endpoint token) (c.dataIdAt i schedule now) rest).map
          fun handle => ⟨c, i.asOf schedule now, handle⟩).mapError .sync,
        some (i.asOf schedule now),
        transport.opened (c.sessionOn endpoint token)
          (registered.map fun k => ⟨"ahas-sentinel", c.dataIdAt i schedule now k, k⟩),
        schedule.ahead now⟩ := by
  rw [← identified.dataId_asOf] at registers
  have opened : c.feed.openFeed endpoint c.appName token ⟨i.asOf schedule now, transport⟩ = _ :=
    FeedSettings.openFeed_of_registers free registers
  rw [identified.dataId_asOf, identified.watch_asOf] at opened
  exact identified.launch_of_ready ordered ready opened

end Identified

theorem launch_of_launches {launched : Launched} (ordered : schedule.Ordered)
    (launches : Launches c discovery host transport begun schedule launched) :
    launch c discovery host transport begun schedule = launched := by
  cases launches with
  | misconfigured invalid => rw [launch, bootstrap_of_invalid invalid]
  | unidentified valid failed =>
    rw [launch, bootstrap_of_resolution valid failed]
    rfl
  | unready identified late =>
    exact identified.launch_eq (FeedSettings.start_of_timeout identified.feed_valid
      (Identity.await_of_late ordered identified.unsettled late))
  | sessionless identified ready failure =>
    exact identified.launch_of_ready ordered ready
      (FeedSettings.openFeed_of_failure failure)
  | refused identified ready free registers =>
    exact identified.launch_of_registers ordered ready free registers
  | running identified ready free granted =>
    exact identified.launch_of_registers ordered ready free (.of_granted granted)

theorem exists_launches (c : AgentConfig) (discovery : Discovery) (host : Host)
    (transport : Transport) (begun : Nat) (schedule : Schedule) :
    ∃ launched, Launches c discovery host transport begun schedule launched := by
  cases valid : c.validate with
  | error fault => exact ⟨_, .misconfigured valid⟩
  | ok _ =>
  obtain ⟨result, resolution⟩ := BootstrapRequest.exists_resolution c.bootstrapRequest discovery
    host c.endpointTable
  cases result with
  | error cause => exact ⟨_, .unidentified valid resolution⟩
  | ok i =>
  have identified : Identified c discovery host i i.facts.endpoint :=
    ⟨valid, resolution, resolution.serves⟩
  by_cases inTime : ∃ d token, firstDelivery? (updates schedule) = some (d, token) ∧
    d ≤ begun + c.waitMs
  · obtain ⟨d, token, first, inTime⟩ := inTime
    have ready : Ready c begun schedule token (max begun d) := .first first inTime
    cases failure : transport.failure with
    | some cause => exact ⟨_, .sessionless identified ready failure⟩
    | none =>
      obtain ⟨registered, rest, registers⟩ :=
        exists_registers transport.session.refused (c.dataIdAt i schedule (max begun d))
      cases rest with
      | cons k rest => exact ⟨_, .refused identified ready failure registers⟩
      | nil =>
        have all : registered = Category.all := (List.append_nil _).symm.trans registers.split
        exact ⟨_, .running identified ready failure fun k =>
          registers.granted k (all ▸ Category.mem_all k)⟩
  · refine ⟨_, .unready identified fun d token first => ?_⟩
    exact Nat.lt_of_not_le fun le => inTime ⟨d, token, first, le⟩

theorem launch_eq_iff {launched : Launched} (ordered : schedule.Ordered) :
    launch c discovery host transport begun schedule = launched ↔
      Launches c discovery host transport begun schedule launched := by
  refine ⟨fun ended => ?_, launch_of_launches ordered⟩
  obtain ⟨reached, launches⟩ := exists_launches c discovery host transport begun schedule
  rwa [← ended, launch_of_launches ordered launches]

theorem launch_of_invalid (invalid : c.validate ≠ .ok ()) (discovery' : Discovery)
    (host' : Host) :
    launch c discovery' host' transport begun schedule =
      launch c discovery host transport begun schedule := by
  cases checked : c.validate with
  | ok _ => exact absurd checked invalid
  | error fault =>
    rw [launch, launch, bootstrap_of_invalid checked, bootstrap_of_invalid checked]

end Launch

/-- A launch ends at the first of its stages that fails, and with that stage's error: at the
configuration, whatever discovery and the host say; at the identity; at the wait, by its deadline
and not before; at the session; or at a subscription. A launch that does not fail has opened one
session, on the host of the environment and region. -/
theorem launch_ends_at_first_failing_stage (c : AgentConfig) (discovery : Discovery) (host : Host)
    (transport : Transport) (begun : Nat) (schedule : Schedule) (ordered : schedule.Ordered) :
    (∀ launched, launch c discovery host transport begun schedule = launched ↔
      Launches c discovery host transport begun schedule launched) ∧
    (c.validate ≠ .ok () → ∀ discovery' host',
      launch c discovery' host' transport begun schedule =
        launch c discovery host transport begun schedule) ∧
    (c.validate = .ok () → 1 ≤ c.waitMs ∧ c.waitMs ≤ 600000) ∧
    ∀ instant schedule state e, (start c instant schedule state).1 = .error e →
      (∃ fault, c.validate = .error fault ∧ e = .config fault) ∨
      e = .sync (.readiness ⟨c.feed.sessionWaitMs⟩) ∨
      (∃ cause, e = .sync (.sessionCreate cause)) ∨
      ∃ dataId cause, e = .sync (.subscribe dataId cause) := by
  refine ⟨fun _ => launch_eq_iff ordered, launch_of_invalid, fun valid => ?_,
    fun _ _ _ _ => start_error⟩
  exact FeedSettings.sessionWait_bounds ((AgentConfig.validate_eq_ok_iff c).mp valid).2.2.2.2

/-- The token comes two units after the second step has begun, and the tenant that was set before
that is the one in the data ids. -/
theorem launch_ends_at_first_failing_stage_tenant_changed :
    let c : AgentConfig := { AgentConfig.standard with
      appName := "app", endpoints := [⟨"prod-cn-hangzhou", "edge.internal", ""⟩] }
    let discovery : Discovery :=
      .ok ⟨"first", "cn-hangzhou", "vpc", "10.0.0.7", "host", "instance"⟩
    let host : Host := ⟨.error .unsupportedPlatform, .error .unsupportedPlatform, 42⟩
    let schedule : Schedule :=
      [(1, .setTenant "second"), (5, .deliver "token"), (6, .setTenant "third")]
    let launched := launch c discovery host .empty 3 schedule
    launched.transport.created = [⟨"token", "edge.internal:8080", 3000, 30000⟩] ∧
      launched.transport.session.watches.map Watch.dataId = [
        "flow-rule-second-default-app", "system-rule-second-default-app",
        "degrade-rule-second-default-app", "param-flow-rule-second-default-app"] ∧
      launched.later = [(6, .setTenant "third")] := by
  intro c discovery host schedule launched
  have ordered : schedule.Ordered := by decide
  have serves : c.endpointTable.Serves "prod" "cn-hangzhou" false "edge.internal" := by decide
  have identified : Identified c discovery host _ "edge.internal" :=
    ⟨by decide, .discovered rfl rfl (by decide) serves, serves⟩
  have ready : Ready c 3 schedule "token" 5 := .first (d := 5) rfl (by decide)
  have ends := launch_ends_at_first_failing_stage c discovery host .empty 3 schedule ordered
  have running := (ends.1 _).mpr (.running identified ready rfl fun k => List.not_mem_nil)
  have same : launched = _ := running
  rw [same]
  exact ⟨by decide +kernel, rfl, rfl⟩

end Agent
end RuleFeed
