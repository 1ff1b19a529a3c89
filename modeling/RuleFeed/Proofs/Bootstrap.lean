import RuleFeed.Bootstrap

/-!
How the identity of a process is resolved. The license alone decides which of two ways is taken.
Each way has its stages in a fixed order; the first that fails decides the error, and whom the way
does not ask plays no part in the answer. An identity that is resolved says by each of its marks
which way it came: its path, its license and its tenant.
-/
namespace RuleFeed

namespace EndpointTable

variable {t : EndpointTable} {env region host : String} {secure : Bool}

def Serves (t : EndpointTable) (env region : String) (secure : Bool) (host : String) : Prop :=
  t.select? env region secure = some host ∧ host ≠ ""

instance : Decidable (t.Serves env region secure host) := inferInstanceAs (Decidable (_ ∧ _))

theorem Serves.unique {other : String} (serves : t.Serves env region secure host)
    (serves' : t.Serves env region secure other) : host = other :=
  Option.some.inj (serves.1.symm.trans serves'.1)

theorem resolve_of_serves (serves : t.Serves env region secure host) :
    t.resolve env region secure = .ok host := by
  have kept : (t.select? env region secure).filter (· ≠ "") = some host := by
    rw [serves.1, Option.filter_some, if_pos (decide_eq_true serves.2)]
  rw [resolve, kept]

theorem resolve_of_unserved (unserved : ∀ host, ¬ t.Serves env region secure host) :
    t.resolve env region secure = .error ⟨key env region⟩ := by
  have none : (t.select? env region secure).filter (· ≠ "") = none := by
    refine Option.filter_eq_none_iff.mpr fun host selected nonempty => ?_
    exact unserved host ⟨selected, of_decide_eq_true nonempty⟩
  rw [resolve, none]

theorem serves_or_unserved (t : EndpointTable) (env region : String) (secure : Bool) :
    (∃ host, t.Serves env region secure host) ∨ ∀ host, ¬ t.Serves env region secure host :=
  (Classical.em _).imp_right fun none host serves => none ⟨host, serves⟩

end EndpointTable

namespace BootstrapRequest

def discoveredFacts (r : BootstrapRequest) (m : Metadata) (processId : UInt32)
    (endpoint : String) : Facts where
  license := r.license
  namespaceName := r.namespaceName
  deployEnv := r.deployEnv
  path := .discovery
  regionId := m.regionId
  networkId := m.networkId
  localIp := m.ip
  hostName := m.hostName
  processId := Decimal.write processId.toNat
  instanceId := m.instanceId
  endpoint := endpoint
  sdkVersion := Facts.currentVersion
  debugging := r.debugging

def licensedFacts (r : BootstrapRequest) (host : Host) (ip : Ipv4) (endpoint : String) :
    Facts where
  license := r.license
  namespaceName := r.namespaceName
  deployEnv := r.deployEnv
  path := .license
  regionId := "cn-public"
  networkId := r.license
  localIp := ip.write
  hostName := host.name.toOption.getD ""
  processId := Decimal.write host.processId.toNat
  instanceId := host.name.toOption.getD ""
  endpoint := endpoint
  sdkVersion := Facts.currentVersion
  debugging := r.debugging

/-- How the resolution of an identity ends. A stage is reached past those above it on its way. -/
inductive Resolution (r : BootstrapRequest) (discovery : Discovery) (host : Host)
    (endpoints : EndpointTable) : Except BootstrapError Identity → Prop where
  | undiscovered {cause : DiscoveryError} (unlicensed : r.license = "")
      (failed : discovery = .error cause) :
    Resolution r discovery host endpoints (.error (.discoveryUnavailable cause))
  | tenantless {m : Metadata} (unlicensed : r.license = "") (found : discovery = .ok m)
      (tenantless : m.tenantId = "") :
    Resolution r discovery host endpoints (.error (.discoveryUnavailable .missingTenant))
  | undeployed {m : Metadata} (unlicensed : r.license = "") (found : discovery = .ok m)
      (tenant : m.tenantId ≠ "") (unserved : ∀ endpoint,
        ¬ endpoints.Serves r.deployEnv m.regionId r.secureTransport endpoint) :
    Resolution r discovery host endpoints
      (.error (.unsupportedEnvironment ⟨r.deployEnv ++ "-" ++ m.regionId⟩))
  | discovered {m : Metadata} {endpoint : String} (unlicensed : r.license = "")
      (found : discovery = .ok m) (tenant : m.tenantId ≠ "")
      (serves : endpoints.Serves r.deployEnv m.regionId r.secureTransport endpoint) :
    Resolution r discovery host endpoints
      (.ok (.ofFacts (r.discoveredFacts m host.processId endpoint) m.tenantId))
  | unlisted {cause : HostError} (licensed : r.license ≠ "")
      (failed : host.interfaces = .error cause) :
    Resolution r discovery host endpoints (.error (.interfaceEnumeration cause))
  | unrouteable {interfaces : List Interface} (licensed : r.license ≠ "")
      (listed : host.interfaces = .ok interfaces)
      (none : Interface.firstRouteable? interfaces = none) :
    Resolution r discovery host endpoints (.error .noRouteableAddress)
  | unsupported {interfaces : List Interface} {ip : Ipv4} (licensed : r.license ≠ "")
      (listed : host.interfaces = .ok interfaces)
      (first : Interface.firstRouteable? interfaces = some ip) (unserved : ∀ endpoint,
        ¬ endpoints.Serves r.deployEnv "cn-public" r.secureTransport endpoint) :
    Resolution r discovery host endpoints
      (.error (.unsupportedEnvironment ⟨r.deployEnv ++ "-" ++ "cn-public"⟩))
  | licensed {interfaces : List Interface} {ip : Ipv4} {endpoint : String}
      (licensed : r.license ≠ "") (listed : host.interfaces = .ok interfaces)
      (first : Interface.firstRouteable? interfaces = some ip)
      (serves : endpoints.Serves r.deployEnv "cn-public" r.secureTransport endpoint) :
    Resolution r discovery host endpoints (.ok (.ofFacts (r.licensedFacts host ip endpoint) ""))

def located (r : BootstrapRequest) (endpoints : EndpointTable) (found : Facts × String) :
    Except BootstrapError Identity := do
  let endpoint ← (endpoints.resolve r.deployEnv found.1.regionId r.secureTransport).mapError
    .unsupportedEnvironment
  return .ofFacts { found.1 with endpoint := endpoint } found.2

section Resolution

variable {r : BootstrapRequest} {discovery : Discovery} {host : Host} {endpoints : EndpointTable}
  {result : Except BootstrapError Identity}

theorem located_of_serves {found : Facts × String} {endpoint : String}
    (serves : endpoints.Serves r.deployEnv found.1.regionId r.secureTransport endpoint) :
    r.located endpoints found = .ok (.ofFacts { found.1 with endpoint := endpoint } found.2) := by
  rw [located, EndpointTable.resolve_of_serves serves]
  rfl

theorem located_of_unserved {found : Facts × String} (unserved : ∀ endpoint,
      ¬ endpoints.Serves r.deployEnv found.1.regionId r.secureTransport endpoint) :
    r.located endpoints found =
      .error (.unsupportedEnvironment ⟨r.deployEnv ++ "-" ++ found.1.regionId⟩) := by
  rw [located, EndpointTable.resolve_of_unserved unserved]
  rfl

theorem resolve_of_unlicensed (unlicensed : r.license = "") :
    r.resolve discovery host endpoints =
      r.discovered discovery host.processId >>= r.located endpoints := by
  rw [resolve, if_pos unlicensed]
  rfl

theorem resolve_of_licensed (licensed : r.license ≠ "") :
    r.resolve discovery host endpoints = r.licensed host >>= r.located endpoints := by
  rw [resolve, if_neg licensed]
  rfl

theorem discovered_of_tenant {m : Metadata} (tenant : m.tenantId ≠ "") (processId : UInt32) :
    r.discovered (.ok m) processId = .ok (r.discoveredFacts m processId "", m.tenantId) := by
  have kept : metadata (.ok m) = .ok m := if_neg tenant
  rw [discovered, kept]
  rfl

theorem discovered_of_tenantless {m : Metadata} (tenantless : m.tenantId = "")
    (processId : UInt32) :
    r.discovered (.ok m) processId = .error (.discoveryUnavailable .missingTenant) := by
  have refused : metadata (.ok m) = .error .missingTenant := if_pos tenantless
  rw [discovered, refused]
  rfl

private theorem mapError_ok {α ε δ : Type} (f : ε → δ) (a : α) :
    (Except.ok a).mapError f = .ok a := rfl

theorem licensed_of_some {interfaces : List Interface} {ip : Ipv4}
    (listed : host.interfaces = .ok interfaces)
    (first : Interface.firstRouteable? interfaces = some ip) :
    r.licensed host = .ok (r.licensedFacts host ip "", "") := by
  simp only [licensed, listed, mapError_ok, bind, Except.bind, first]
  rfl

theorem licensed_of_none {interfaces : List Interface}
    (listed : host.interfaces = .ok interfaces)
    (none : Interface.firstRouteable? interfaces = none) :
    r.licensed host = .error .noRouteableAddress := by
  simp only [licensed, listed, mapError_ok, bind, Except.bind, none]

theorem resolve_of_resolution (resolution : Resolution r discovery host endpoints result) :
    r.resolve discovery host endpoints = result := by
  cases resolution with
  | undiscovered unlicensed failed =>
    rw [resolve_of_unlicensed unlicensed, failed]
    rfl
  | tenantless unlicensed found tenantless =>
    rw [resolve_of_unlicensed unlicensed, found, discovered_of_tenantless tenantless]
    rfl
  | undeployed unlicensed found tenant unserved =>
    rw [resolve_of_unlicensed unlicensed, found, discovered_of_tenant tenant]
    exact located_of_unserved unserved
  | discovered unlicensed found tenant serves =>
    rw [resolve_of_unlicensed unlicensed, found, discovered_of_tenant tenant]
    exact located_of_serves serves
  | unlisted licensed failed =>
    rw [resolve_of_licensed licensed, BootstrapRequest.licensed, failed]
    rfl
  | unrouteable licensed listed none =>
    rw [resolve_of_licensed licensed, licensed_of_none listed none]
    rfl
  | unsupported licensed listed first unserved =>
    rw [resolve_of_licensed licensed, licensed_of_some listed first]
    exact located_of_unserved unserved
  | licensed licensed listed first serves =>
    rw [resolve_of_licensed licensed, licensed_of_some listed first]
    exact located_of_serves serves

theorem exists_resolution (r : BootstrapRequest) (discovery : Discovery) (host : Host)
    (endpoints : EndpointTable) : ∃ result, Resolution r discovery host endpoints result := by
  by_cases unlicensed : r.license = ""
  · cases found : discovery with
    | error cause => exact ⟨_, .undiscovered unlicensed rfl⟩
    | ok m =>
      by_cases tenant : m.tenantId = ""
      · exact ⟨_, .tenantless unlicensed rfl tenant⟩
      rcases endpoints.serves_or_unserved r.deployEnv m.regionId r.secureTransport with
        ⟨endpoint, serves⟩ | unserved
      · exact ⟨_, .discovered unlicensed rfl tenant serves⟩
      · exact ⟨_, .undeployed unlicensed rfl tenant unserved⟩
  · cases listed : host.interfaces with
    | error cause => exact ⟨_, .unlisted unlicensed listed⟩
    | ok interfaces =>
      cases first : Interface.firstRouteable? interfaces with
      | none => exact ⟨_, .unrouteable unlicensed listed first⟩
      | some ip =>
        rcases endpoints.serves_or_unserved r.deployEnv "cn-public" r.secureTransport with
          ⟨endpoint, serves⟩ | unserved
        · exact ⟨_, .licensed unlicensed listed first serves⟩
        · exact ⟨_, .unsupported unlicensed listed first unserved⟩

theorem resolve_eq_iff : r.resolve discovery host endpoints = result ↔
    Resolution r discovery host endpoints result := by
  refine ⟨fun resolved => ?_, resolve_of_resolution⟩
  obtain ⟨ended, resolution⟩ := exists_resolution r discovery host endpoints
  rwa [← resolved, resolve_of_resolution resolution]

theorem resolve_eq_of_unlicensed (unlicensed : r.license = "")
    (interfaces : Except HostError (List Interface)) (name : Except HostError String) :
    r.resolve discovery { host with interfaces, name } endpoints =
      r.resolve discovery host endpoints := by
  rw [resolve_of_unlicensed unlicensed, resolve_of_unlicensed unlicensed]

theorem resolve_eq_of_licensed (licensed : r.license ≠ "") (other : Discovery) :
    r.resolve other host endpoints = r.resolve discovery host endpoints := by
  rw [resolve_of_licensed licensed, resolve_of_licensed licensed]

def unnamed (i : Identity) : Identity :=
  { i with facts := { i.facts with hostName := "", instanceId := "" } }

/-- A host without a name costs an identity the two facts that are its name, and nothing else. -/
theorem resolve_of_nameless (licensed : r.license ≠ "") (cause : HostError) (name : String) :
    r.resolve discovery { host with name := .error cause } endpoints =
      (r.resolve discovery { host with name := .ok name } endpoints).map unnamed := by
  obtain ⟨result, resolution⟩ :=
    exists_resolution r discovery { host with name := .ok name } endpoints
  rw [resolve_of_resolution resolution]
  refine resolve_of_resolution ?_
  cases resolution with
  | undiscovered unlicensed => exact absurd unlicensed licensed
  | tenantless unlicensed => exact absurd unlicensed licensed
  | undeployed unlicensed => exact absurd unlicensed licensed
  | discovered unlicensed => exact absurd unlicensed licensed
  | unlisted licensed failed => exact .unlisted licensed failed
  | unrouteable licensed listed none => exact .unrouteable licensed listed none
  | unsupported licensed listed first unserved => exact .unsupported licensed listed first unserved
  | licensed licensed listed first serves => exact .licensed licensed listed first serves

/-- What an identity says about the way it came. -/
structure Placed (r : BootstrapRequest) (i : Identity) : Prop where
  private_iff : i.facts.isPrivate = true ↔ i.facts.path = .discovery
  path_iff : i.facts.path = .discovery ↔ i.facts.license = ""
  license_iff : i.facts.license = "" ↔ i.tenantId ≠ ""
  license : i.facts.license = r.license
  namespaceName : i.facts.namespaceName = r.namespaceName
  deployEnv : i.facts.deployEnv = r.deployEnv
  endpoint : i.facts.endpoint ≠ ""
  token : i.session.token = none

theorem Resolution.placed {i : Identity}
    (resolution : Resolution r discovery host endpoints (.ok i)) : Placed r i := by
  cases resolution with
  | discovered unlicensed found tenant serves =>
    have path : BootstrapPath.discovery = .discovery ↔ r.license = "" := by simp [unlicensed]
    exact ⟨beq_iff_eq, path, by simp [Identity.ofFacts, discoveredFacts, unlicensed, tenant], rfl,
      rfl, rfl, serves.2, rfl⟩
  | licensed licensed listed first serves =>
    have path : BootstrapPath.license = .discovery ↔ r.license = "" := by simp [licensed]
    exact ⟨beq_iff_eq, path, by simp [Identity.ofFacts, licensedFacts, licensed], rfl, rfl, rfl,
      serves.2, rfl⟩

theorem Resolution.serves {i : Identity}
    (resolution : Resolution r discovery host endpoints (.ok i)) :
    endpoints.Serves r.deployEnv i.facts.regionId r.secureTransport i.facts.endpoint := by
  cases resolution with
  | discovered unlicensed found tenant serves => exact serves
  | licensed licensed listed first serves => exact serves

end Resolution

/-- The license alone decides on the way; the stages of that way, and nothing else, decide on the
answer; and an identity that is resolved bears the marks of its way. -/
theorem resolve_takes_one_path (r : BootstrapRequest) (discovery : Discovery) (host : Host)
    (endpoints : EndpointTable) :
    (∀ result, r.resolve discovery host endpoints = result ↔
      Resolution r discovery host endpoints result) ∧
    (r.license = "" → ∀ interfaces name,
      r.resolve discovery { host with interfaces, name } endpoints =
        r.resolve discovery host endpoints) ∧
    (r.license ≠ "" → ∀ other,
      r.resolve other host endpoints = r.resolve discovery host endpoints) ∧
    (r.license ≠ "" → ∀ cause name,
      r.resolve discovery { host with name := .error cause } endpoints =
        (r.resolve discovery { host with name := .ok name } endpoints).map unnamed) ∧
    ∀ i, r.resolve discovery host endpoints = .ok i → Placed r i :=
  ⟨fun _ => resolve_eq_iff, resolve_eq_of_unlicensed, resolve_eq_of_licensed,
    resolve_of_nameless, fun _ resolved => (resolve_eq_iff.mp resolved).placed⟩

/-- The service is down and the host has no name, and neither keeps the licensed process from its
identity; its address is one of version 4 that is mapped into one of version 6. -/
theorem resolve_takes_one_path_mapped_address :
    let r : BootstrapRequest := ⟨"key", "default", "prod", true, false⟩
    let interfaces : List Interface := [
      ⟨"lo", true, true, [.v4 ⟨127, 0, 0, 1⟩]⟩,
      ⟨"eth0", true, false, [.v4 ⟨0, 0, 0, 0⟩, .v6 ⟨0, 0, 0, 0, 0, 0xffff, 0x0a00, 7⟩]⟩]
    let host : Host := ⟨.ok interfaces, .error .unsupportedPlatform, 42⟩
    let facts := r.licensedFacts host ⟨10, 0, 0, 7⟩ "rulesync-proxy-tls.cn-public.internal"
    r.resolve (.error (.unavailable "refused")) host .builtin = .ok (.ofFacts facts "") ∧
      facts.isPrivate = false := by
  intro r interfaces host facts
  obtain ⟨ends, -, -, -, placed⟩ :=
    resolve_takes_one_path r (.error (.unavailable "refused")) host .builtin
  have first : Interface.firstRouteable? interfaces = some ⟨10, 0, 0, 7⟩ := by decide
  have serves : EndpointTable.builtin.Serves "prod" "cn-public" true
      "rulesync-proxy-tls.cn-public.internal" := by decide
  have resolved := (ends _).mpr (.licensed (by decide) rfl first serves)
  refine ⟨resolved, Bool.eq_false_iff.mpr fun isPrivate => ?_⟩
  have path := (placed _ resolved).private_iff.mp isPrivate
  cases path

end BootstrapRequest
end RuleFeed
