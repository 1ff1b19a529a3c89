import RuleFeed.Host.Interface

/-! What the machine says about itself. Either question can fail; the process id is always known. -/
namespace RuleFeed

inductive HostError where
  | listInterfaces (source : String)
  | hostName (source : String)
  | unsupportedPlatform
  deriving DecidableEq, Repr

def HostError.message : HostError → String
  | .listInterfaces source => "failed to list interfaces: " ++ source
  | .hostName source => "failed to read host name: " ++ source
  | .unsupportedPlatform => "host probing is not supported on this platform"

structure Host where
  interfaces : Except HostError (List Interface)
  name : Except HostError String
  processId : UInt32

end RuleFeed
