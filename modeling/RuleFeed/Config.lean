import RuleFeed.Bootstrap
import RuleFeed.Feed.Settings
import RuleFeed.Text.Blank

/-!
The configuration of an agent. It is put together from layers; a field at its default counts as
not set, a flag that one layer sets stays set, and the endpoints of all layers are kept in order.
-/
namespace RuleFeed

structure EndpointOverride where
  key : String
  insecure : String
  secure : String
  deriving DecidableEq, Repr

structure AgentConfig where
  license : String
  namespaceName : String
  deployEnv : String
  appName : String
  secureTransport : Bool
  debugging : Bool
  feed : FeedSettings
  endpoints : List EndpointOverride
  deriving DecidableEq, Repr

inductive ConfigFault where
  | appNameUnset
  | namespaceEmpty
  | deployEnvEmpty
  | endpointKeyEmpty (index : Nat)
  | settings (cause : SettingsFault)
  deriving DecidableEq, Repr

def ConfigFault.message : ConfigFault → String
  | .appNameUnset => "app_name must be set"
  | .namespaceEmpty => "namespace must not be empty"
  | .deployEnvEmpty => "deploy_env must not be empty"
  | .endpointKeyEmpty index => "endpoints[" ++ Decimal.write index ++ "] has an empty key"
  | .settings cause => cause.errorMessage

def ConfigFault.errorMessage (f : ConfigFault) : String :=
  "configuration validation failed: " ++ f.message

namespace EndpointOverride

open Json

def blank : EndpointOverride := ⟨"", "", ""⟩

def shape : Shape EndpointOverride where
  blank := blank
  fields := [
    .required "key" Node.string fun v e => { e with key := v },
    .optional "insecure" Node.string fun v e => { e with insecure := v },
    .optional "secure" Node.string fun v e => { e with secure := v }]

end EndpointOverride

namespace AgentConfig

open Json

def defaultNamespace : String := "default"

def defaultDeployEnv : String := "prod"

def standard : AgentConfig :=
  ⟨"", defaultNamespace, defaultDeployEnv, "", false, false, .standard, []⟩

def shape : Shape AgentConfig where
  blank := standard
  fields := [
    .optional "license" Node.string fun v c => { c with license := v },
    .optional "namespace" Node.string fun v c => { c with namespaceName := v },
    .optional "deploy_env" Node.string fun v c => { c with deployEnv := v },
    .optional "app_name" Node.string fun v c => { c with appName := v },
    .optional "secure_transport" Node.bool fun v c => { c with secureTransport := v },
    .optional "debugging" Node.bool fun v c => { c with debugging := v },
    .optional "datasource" FeedSettings.shape.read fun v c => { c with feed := v },
    .optional "endpoints" (Node.listOf EndpointOverride.shape.read)
      fun v c => { c with endpoints := v }]

def ofDocument (text : String) : Reading AgentConfig := shape.readDocument text

def merge (lower upper : AgentConfig) : AgentConfig where
  license := layered "" lower.license upper.license
  namespaceName := layered defaultNamespace lower.namespaceName upper.namespaceName
  deployEnv := layered defaultDeployEnv lower.deployEnv upper.deployEnv
  appName := layered "" lower.appName upper.appName
  secureTransport := lower.secureTransport || upper.secureTransport
  debugging := lower.debugging || upper.debugging
  feed := lower.feed.merge upper.feed
  endpoints := lower.endpoints ++ upper.endpoints

def validate (c : AgentConfig) : Except ConfigFault Unit :=
  if allBlank c.appName then .error .appNameUnset
  else if c.namespaceName = "" then .error .namespaceEmpty
  else if c.deployEnv = "" then .error .deployEnvEmpty
  else match c.endpoints.findIdx? (·.key = "") with
    | some index => .error (.endpointKeyEmpty index)
    | none => c.feed.validate.mapError .settings

def endpointTable (c : AgentConfig) : EndpointTable :=
  c.endpoints.foldl (fun t e => t.insert e.key ⟨e.insecure, e.secure⟩) .builtin

def bootstrapRequest (c : AgentConfig) : BootstrapRequest where
  license := c.license
  namespaceName := c.namespaceName
  deployEnv := c.deployEnv
  secureTransport := c.secureTransport
  debugging := c.debugging

end AgentConfig
end RuleFeed
