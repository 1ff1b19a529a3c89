import RuleFeed.Config.Environment
import RuleFeed.Toml.Document

/-!
Loading a configuration: the environment lowest, a file over it if a path is given, overrides over
both. A file that cannot be read or decoded is reported first, whatever the other layers hold.
-/
namespace RuleFeed

structure ConfigFile where
  path : String
  content : Option ByteArray

inductive ConfigError where
  | unreadable (path : String)
  | undecodable (path : String)
  | validation (cause : ConfigFault)
  deriving DecidableEq, Repr

def ConfigError.message (source : String) : ConfigError → String
  | .unreadable path => "failed to read config file " ++ path ++ ": " ++ source
  | .undecodable path => "failed to parse TOML config file " ++ path ++ ": " ++ source
  | .validation cause => cause.errorMessage

namespace AgentConfig

def ofToml? (text : String) : Option AgentConfig := do
  let document ← Toml.document? text
  (shape.read document).toOption

/-- The configuration that a file describes; the file must hold UTF-8. -/
def ofFile (file : ConfigFile) : Except ConfigError AgentConfig :=
  match file.content.bind String.fromUTF8? with
  | none => .error (.unreadable file.path)
  | some text =>
    match ofToml? text with
    | none => .error (.undecodable file.path)
    | some config => .ok config

def validated (c : AgentConfig) : Except ConfigError AgentConfig :=
  (c.validate.mapError .validation).map fun _ => c

def load (env : Environment) (file : Option ConfigFile) (overrides : Option AgentConfig) :
    Except ConfigError AgentConfig := do
  let config ← match file with
    | none => pure env.config
    | some file => (ofFile file).map env.config.merge
  let config := match overrides with
    | none => config
    | some upper => config.merge upper
  config.validated

end AgentConfig
end RuleFeed
