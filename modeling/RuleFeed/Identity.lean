import RuleFeed.Session.Promise

/-!
The identity of a process: facts fixed when it was resolved, and the three things that arrive
later, a tenant, a client id and a session token. No update touches the facts.
-/
namespace RuleFeed

inductive BootstrapPath where
  | discovery
  | license
  deriving DecidableEq, Repr

namespace BootstrapPath

def standard : BootstrapPath := .license

def tag : BootstrapPath → String
  | .discovery => "discovery"
  | .license => "license"

def ofTag? (tag : String) : Option BootstrapPath := [discovery, license].find? fun p => p.tag == tag

end BootstrapPath

structure Facts where
  license : String
  namespaceName : String
  deployEnv : String
  path : BootstrapPath
  regionId : String
  networkId : String
  localIp : String
  hostName : String
  processId : String
  instanceId : String
  endpoint : String
  sdkVersion : String
  debugging : Bool
  deriving DecidableEq, Repr

namespace Facts

def currentVersion : String := "1.0.3"

def sdkKind : String := "RUST_SDK"

def blank : Facts := ⟨"", "", "", .standard, "", "", "", "", "", "", "", currentVersion, false⟩

/-- The process was found by discovery, within the provider's own network. -/
def isPrivate (f : Facts) : Bool := f.path == .discovery

end Facts

structure Identity where
  facts : Facts
  tenantId : String
  cid : String
  session : Promise
  deriving DecidableEq, Repr

namespace Identity

def ofFacts (facts : Facts) (tenantId : String) : Identity := ⟨facts, tenantId, "", .unsettled⟩

def setTenant (i : Identity) (tenantId : String) : Identity := { i with tenantId := tenantId }

def setCid (i : Identity) (cid : String) : Identity := { i with cid := cid }

def deliver (i : Identity) (token : String) : Except DeliveryError Unit × Identity :=
  ((i.session.deliver token).1, { i with session := (i.session.deliver token).2 })

end Identity
end RuleFeed
