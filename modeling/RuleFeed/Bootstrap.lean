import RuleFeed.Endpoint
import RuleFeed.Host
import RuleFeed.Identity

/-!
Resolving the identity of a process. Without a license the network's metadata service is asked,
and the host is not; with one the host is, and the service is not. Both ways end with the
endpoint of the environment and the region.
-/
namespace RuleFeed

structure Metadata where
  tenantId : String
  regionId : String
  networkId : String
  ip : String
  hostName : String
  instanceId : String
  deriving DecidableEq, Repr

inductive DiscoveryError where
  | unavailable (source : String)
  | missingTenant
  deriving DecidableEq, Repr

def DiscoveryError.message : DiscoveryError → String
  | .unavailable source => "discovery service unavailable: " ++ source
  | .missingTenant => "discovery service returned no tenant id"

abbrev Discovery := Except DiscoveryError Metadata

structure BootstrapRequest where
  license : String
  namespaceName : String
  deployEnv : String
  secureTransport : Bool
  debugging : Bool
  deriving DecidableEq, Repr

inductive BootstrapError where
  | discoveryUnavailable (cause : DiscoveryError)
  | interfaceEnumeration (cause : HostError)
  | noRouteableAddress
  | unsupportedEnvironment (cause : UnsupportedEnvironment)
  deriving DecidableEq, Repr

def BootstrapError.message : BootstrapError → String
  | .discoveryUnavailable cause => "cannot find a tenant license: " ++ cause.message
  | .interfaceEnumeration cause => "failed to enumerate network interfaces: " ++ cause.message
  | .noRouteableAddress => "cannot resolve a routeable IPv4 address"
  | .unsupportedEnvironment cause => cause.message

namespace BootstrapRequest

/-- The region of processes outside the provider's network. -/
def publicRegion : String := "cn-public"

def facts (r : BootstrapRequest) : Facts :=
  { Facts.blank with
    license := r.license
    namespaceName := r.namespaceName
    deployEnv := r.deployEnv
    debugging := r.debugging }

def metadata (discovery : Discovery) : Except DiscoveryError Metadata := do
  let m ← discovery
  if m.tenantId = "" then .error .missingTenant else return m

def discovered (r : BootstrapRequest) (discovery : Discovery) (processId : UInt32) :
    Except BootstrapError (Facts × String) := do
  let m ← (metadata discovery).mapError .discoveryUnavailable
  return ({ r.facts with
    path := .discovery
    regionId := m.regionId
    networkId := m.networkId
    localIp := m.ip
    hostName := m.hostName
    instanceId := m.instanceId
    processId := Decimal.write processId.toNat }, m.tenantId)

/-- Facts from the host, but for the endpoint. A host without a name has an empty one. -/
def licensed (r : BootstrapRequest) (host : Host) : Except BootstrapError (Facts × String) := do
  let interfaces ← host.interfaces.mapError .interfaceEnumeration
  match Interface.firstRouteable? interfaces with
  | none => .error .noRouteableAddress
  | some ip => return ({ r.facts with
      path := .license
      regionId := publicRegion
      networkId := r.license
      localIp := ip.write
      hostName := host.name.toOption.getD ""
      instanceId := host.name.toOption.getD ""
      processId := Decimal.write host.processId.toNat }, "")

def resolve (r : BootstrapRequest) (discovery : Discovery) (host : Host)
    (endpoints : EndpointTable) : Except BootstrapError Identity := do
  let (facts, tenantId) ←
    if r.license = "" then r.discovered discovery host.processId else r.licensed host
  let endpoint ← (endpoints.resolve r.deployEnv facts.regionId r.secureTransport).mapError
    .unsupportedEnvironment
  return .ofFacts { facts with endpoint := endpoint } tenantId

end BootstrapRequest
end RuleFeed
