import RuleFeed.Feed.DataId
import RuleFeed.Feed.Settings
import RuleFeed.Feed.Transport
import RuleFeed.Identity.Schedule

/-!
Starting the synchronisation of rules: the settings are checked, the session token is waited for,
a session is opened with it, and the document of each category is subscribed to. The first stage
that fails ends the start. The data ids use the tenant that the identity has once the session is
open, and subscriptions made before a refused one stay.
-/
namespace RuleFeed

inductive FeedError where
  | settings (cause : SettingsFault)
  | readiness (cause : SessionTimeout)
  | sessionCreate (cause : TransportError)
  | subscribe (dataId : String) (cause : TransportError)
  deriving DecidableEq, Repr

def FeedError.message : FeedError → String
  | .settings cause => cause.errorMessage
  | .readiness cause => "transport session not ready: " ++ cause.message
  | .sessionCreate cause => "failed to create config session: " ++ cause.message
  | .subscribe dataId cause => "failed to subscribe to " ++ dataId ++ ": " ++ cause.message

structure FeedHandle where
  config : SessionConfig
  subscriptions : List Watch
  deriving DecidableEq, Repr

def FeedHandle.dataId? (h : FeedHandle) (c : Category) : Option String :=
  (h.subscriptions.find? fun w => w.category == c).map Watch.dataId

def Watch.ofCategory (tenantId namespaceName app : String) (c : Category) : Watch where
  group := DataId.group
  dataId := DataId.write c tenantId namespaceName app
  category := c

/-- Subscribes to watches in order, up to the first that is refused. -/
def FeedSession.subscribeAll (s : FeedSession) : List Watch → Except FeedError Unit × FeedSession
  | [] => (.ok (), s)
  | w :: ws =>
    match s.subscribe w with
    | (.error e, s) => (.error (.subscribe w.dataId e), s)
    | (.ok _, s) => s.subscribeAll ws

structure FeedState where
  identity : Identity
  transport : Transport
  deriving DecidableEq, Repr

namespace FeedSettings

def sessionConfig (s : FeedSettings) (host token : String) : SessionConfig where
  namespaceId := token
  endpoint := s.endpoint host
  timeoutMs := s.timeoutMs
  listenIntervalMs := s.listenIntervalMs

def openFeed (s : FeedSettings) (host app token : String) (state : FeedState) :
    Except FeedError FeedHandle × FeedState :=
  let config := s.sessionConfig host token
  match state.transport.createSession config with
  | (.error e, transport) => (.error (.sessionCreate e), { state with transport := transport })
  | (.ok _, transport) =>
    let watches := Category.all.map
      (.ofCategory state.identity.tenantId state.identity.facts.namespaceName app)
    match transport.session.subscribeAll watches with
    | (.error e, session) => (.error e, { state with transport := { transport with session } })
    | (.ok _, session) =>
      (.ok ⟨config, watches⟩, { state with transport := { transport with session } })

/-- Starts the synchronisation at an instant; the schedule holds what happens to the identity
from then on. The answer comes with the updates that are due later. -/
def start (s : FeedSettings) (host app : String) (instant : Nat) (schedule : Schedule)
    (state : FeedState) : Except FeedError FeedHandle × FeedState × Schedule :=
  match s.validate with
  | .error fault => (.error (.settings fault), state, schedule)
  | .ok _ =>
    let awaited := state.identity.await instant s.sessionWaitMs.toNat schedule
    let state := { state with identity := awaited.identity }
    match awaited.result with
    | .error timeout => (.error (.readiness timeout), state, awaited.later)
    | .ok token =>
      let (result, state) := s.openFeed host app token state
      (result, state, awaited.later)

end FeedSettings
end RuleFeed
