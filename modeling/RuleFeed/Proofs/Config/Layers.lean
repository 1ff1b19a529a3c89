import RuleFeed.Agent
import RuleFeed.Config.Load
import RuleFeed.Proofs.Feed.Start

/-!
Configurations put together from any number of layers. A field holds the value of the highest layer
that sets it, a flag is set if a layer sets it, and the endpoints follow each other from the lowest
layer up. Merging one more layer is putting it on top, so what a load answers is decided by the
whole stack of environment, file and overrides. A loaded configuration has passed the check that
both steps of an agent's start make first, and that check leaves no fault of the settings behind.
-/
namespace RuleFeed

def topmost {α : Type} [DecidableEq α] (default : α) (values : List α) : α :=
  (values.find? (· ≠ default)).getD default

section Topmost

variable {α : Type} [DecidableEq α] {default : α}

@[simp] theorem topmost_nil : topmost default [] = default := rfl

@[simp] theorem topmost_cons (v : α) (vs : List α) :
    topmost default (v :: vs) = layered default (topmost default vs) v := by
  by_cases unset : v = default
  · simp only [topmost, layered, List.find?_cons, unset, ne_eq, not_true_eq_false, decide_false,
      if_true]
  · simp only [topmost, layered, List.find?_cons, unset, ne_eq, not_false_eq_true, decide_true,
      if_false, Option.getD_some]

@[simp] theorem layered_default (v : α) : layered default default v = v := by
  by_cases unset : v = default
  · rw [layered, if_pos unset, unset]
  · rw [layered, if_neg unset]

end Topmost

theorem ite_error_eq_ok_iff {ε α : Type} {wrong : Prop} [Decidable wrong] {e : ε}
    {others : Except ε α} {a : α} :
    (if wrong then .error e else others) = .ok a ↔ ¬ wrong ∧ others = .ok a := by
  by_cases found : wrong
  · rw [if_pos found]
    exact iff_of_false nofun fun passed => passed.1 found
  · rw [if_neg found, and_iff_right found]

namespace FeedSettings

def stack (layers : List FeedSettings) : FeedSettings where
  timeoutMs := topmost defaultTimeoutMs (layers.map timeoutMs)
  listenIntervalMs := topmost defaultListenIntervalMs (layers.map listenIntervalMs)
  transportPort := topmost defaultTransportPort (layers.map transportPort)
  sessionWaitMs := topmost defaultSessionWaitMs (layers.map sessionWaitMs)

theorem stack_cons (upper : FeedSettings) (layers : List FeedSettings) :
    stack (upper :: layers) = (stack layers).merge upper := by
  simp only [stack, merge, List.map_cons, topmost_cons]

theorem stack_singleton (s : FeedSettings) : stack [s] = s := by
  simp only [stack, List.map_cons, List.map_nil, topmost_cons, topmost_nil, layered_default]

theorem validate_eq_ok_iff (s : FeedSettings) :
    s.validate = .ok () ↔ (s.timeoutMs ≠ 0 ∧ s.timeoutMs ≤ maxTimeoutMs) ∧
      s.listenIntervalMs ≠ 0 ∧ s.transportPort ≠ 0 ∧
      (s.sessionWaitMs ≠ 0 ∧ s.sessionWaitMs ≤ maxSessionWaitMs) := by
  simp only [validate, ite_error_eq_ok_iff, UInt64.not_lt, and_true, and_assoc, ne_eq]

end FeedSettings

namespace AgentConfig

def stack (layers : List AgentConfig) : AgentConfig where
  license := topmost "" (layers.map license)
  namespaceName := topmost defaultNamespace (layers.map namespaceName)
  deployEnv := topmost defaultDeployEnv (layers.map deployEnv)
  appName := topmost "" (layers.map appName)
  secureTransport := layers.any secureTransport
  debugging := layers.any debugging
  feed := .stack (layers.map feed)
  endpoints := layers.reverse.flatMap endpoints

theorem stack_cons (upper : AgentConfig) (layers : List AgentConfig) :
    stack (upper :: layers) = (stack layers).merge upper := by
  simp only [stack, merge, List.map_cons, topmost_cons, List.any_cons, FeedSettings.stack_cons,
    List.reverse_cons, List.flatMap_append, List.flatMap_singleton, Bool.or_comm]

theorem stack_singleton (c : AgentConfig) : stack [c] = c := by
  simp only [stack, List.map_cons, List.map_nil, topmost_cons, topmost_nil, layered_default,
    List.any_cons, List.any_nil, Bool.or_false, FeedSettings.stack_singleton,
    List.reverse_singleton, List.flatMap_singleton]

theorem foldl_merge_stack (uppers layers : List AgentConfig) :
    uppers.foldl merge (stack layers) = stack (uppers.reverse ++ layers) := by
  induction uppers generalizing layers with
  | nil => rfl
  | cons upper uppers ih =>
    rw [List.foldl_cons, ← stack_cons, ih, List.reverse_cons, List.append_assoc,
      List.singleton_append]

/-- Merging layers one after the other, from the lowest up, stacks them. -/
theorem foldl_merge (base : AgentConfig) (uppers : List AgentConfig) :
    uppers.foldl merge base = stack (uppers.reverse ++ [base]) := by
  have stacked := foldl_merge_stack uppers [base]
  rwa [stack_singleton] at stacked

theorem fromUTF8?_toUTF8 (text : String) : String.fromUTF8? text.toUTF8 = some text :=
  dif_pos text.isValidUTF8

/-- What the file at a path contributes, if no path is given or its file can be decoded. -/
inductive FileLayer : Option ConfigFile → Option AgentConfig → Prop
  | absent : FileLayer none none
  | decoded {f : ConfigFile} {text : String} {c : AgentConfig}
      (read : f.content.bind String.fromUTF8? = some text) (decoded : ofToml? text = some c) :
      FileLayer (some f) (some c)

section Load

variable {env : Environment} {file : Option ConfigFile} {overrides decoded : Option AgentConfig}

theorem load_of_error {f : ConfigFile} {e : ConfigError} (failed : ofFile f = .error e) :
    load env (some f) overrides = .error e := by
  simp only [load, failed]
  rfl

theorem load_of_layer (layer : FileLayer file decoded) :
    load env file overrides =
      (stack (overrides.toList ++ decoded.toList ++ [env.config])).validated := by
  have upwards : (decoded.toList ++ overrides.toList).reverse =
      overrides.toList ++ decoded.toList := by
    cases decoded <;> cases overrides <;> rfl
  rw [← upwards, ← foldl_merge]
  cases layer with
  | absent => cases overrides <;> rfl
  | decoded read decoded =>
    cases overrides <;> simp only [load, ofFile, read, decoded] <;> rfl

theorem validated_eq (c : AgentConfig) :
    c.validated = match c.validate with
      | .ok _ => .ok c
      | .error fault => .error (.validation fault) := by
  rw [validated]
  cases c.validate <;> rfl

theorem validate_of_validated {c d : AgentConfig} (valid : c.validated = .ok d) :
    d.validate = .ok () := by
  rw [validated_eq] at valid
  cases checked : c.validate with
  | error fault => rw [checked] at valid; cases valid
  | ok _ => rw [checked] at valid; cases valid; exact checked

theorem eq_validation_of_validated {c : AgentConfig} {e : ConfigError}
    (invalid : c.validated = .error e) : ∃ fault, e = .validation fault := by
  rw [validated_eq] at invalid
  cases checked : c.validate with
  | ok _ => rw [checked] at invalid; cases invalid
  | error fault => rw [checked] at invalid; cases invalid; exact ⟨fault, rfl⟩

theorem load_of_unreadable {f : ConfigFile}
    (unreadable : f.content.bind String.fromUTF8? = none) :
    load env (some f) overrides = .error (.unreadable f.path) :=
  load_of_error (by simp only [ofFile, unreadable])

theorem load_of_undecodable {f : ConfigFile} {text : String}
    (read : f.content.bind String.fromUTF8? = some text) (undecodable : ofToml? text = none) :
    load env (some f) overrides = .error (.undecodable f.path) :=
  load_of_error (by simp only [ofFile, read, undecodable])

theorem file_cases (file : Option ConfigFile) :
    (∃ f, file = some f ∧ f.content.bind String.fromUTF8? = none) ∨
    (∃ f text, file = some f ∧ f.content.bind String.fromUTF8? = some text ∧
      ofToml? text = none) ∨
    ∃ decoded, FileLayer file decoded := by
  cases file with
  | none => exact .inr (.inr ⟨none, .absent⟩)
  | some f =>
    cases read : f.content.bind String.fromUTF8? with
    | none => exact .inl ⟨f, rfl, read⟩
    | some text =>
      cases decoded : ofToml? text with
      | none => exact .inr (.inl ⟨f, text, rfl, read, decoded⟩)
      | some c => exact .inr (.inr ⟨some c, .decoded read decoded⟩)

theorem load_eq_unreadable_iff {path : String} :
    load env file overrides = .error (.unreadable path) ↔
      ∃ f, file = some f ∧ f.path = path ∧ f.content.bind String.fromUTF8? = none := by
  constructor
  · intro failed
    rcases file_cases file with ⟨f, rfl, unreadable⟩ | ⟨f, text, rfl, read, undecodable⟩ |
      ⟨decoded, layer⟩
    · rw [load_of_unreadable unreadable] at failed
      cases failed
      exact ⟨f, rfl, rfl, unreadable⟩
    · rw [load_of_undecodable read undecodable] at failed
      cases failed
    · rw [load_of_layer layer] at failed
      obtain ⟨fault, same⟩ := eq_validation_of_validated failed
      cases same
  · rintro ⟨f, rfl, rfl, unreadable⟩
    exact load_of_unreadable unreadable

theorem load_eq_undecodable_iff {path : String} :
    load env file overrides = .error (.undecodable path) ↔
      ∃ f text, file = some f ∧ f.path = path ∧
        f.content.bind String.fromUTF8? = some text ∧ ofToml? text = none := by
  constructor
  · intro failed
    rcases file_cases file with ⟨f, rfl, unreadable⟩ | ⟨f, text, rfl, read, undecodable⟩ |
      ⟨decoded, layer⟩
    · rw [load_of_unreadable unreadable] at failed
      cases failed
    · rw [load_of_undecodable read undecodable] at failed
      cases failed
      exact ⟨f, text, rfl, rfl, read, undecodable⟩
    · rw [load_of_layer layer] at failed
      obtain ⟨fault, same⟩ := eq_validation_of_validated failed
      cases same
  · rintro ⟨f, text, rfl, rfl, read, undecodable⟩
    exact load_of_undecodable read undecodable

theorem validate_of_load {c : AgentConfig} (loaded : load env file overrides = .ok c) :
    c.validate = .ok () := by
  rcases file_cases file with ⟨f, rfl, unreadable⟩ | ⟨f, text, rfl, read, undecodable⟩ |
    ⟨decoded, layer⟩
  · rw [load_of_unreadable unreadable] at loaded
    cases loaded
  · rw [load_of_undecodable read undecodable] at loaded
    cases loaded
  · rw [load_of_layer layer] at loaded
    exact validate_of_validated loaded

end Load

theorem endpoints_stack_config (env : Environment) (overrides decoded : Option AgentConfig) :
    (stack (overrides.toList ++ decoded.toList ++ [env.config])).endpoints =
      decoded.elim [] endpoints ++ overrides.elim [] endpoints := by
  have lowest : env.config.endpoints = [] := rfl
  cases decoded <;> cases overrides <;>
    simp only [stack, Option.toList, Option.elim, List.nil_append, List.cons_append,
      List.reverse_cons, List.reverse_nil, List.flatMap_cons, List.flatMap_nil, lowest,
      List.append_nil]

theorem validate_eq_ok_iff (c : AgentConfig) :
    c.validate = .ok () ↔ allBlank c.appName = false ∧ c.namespaceName ≠ "" ∧ c.deployEnv ≠ "" ∧
      (∀ e ∈ c.endpoints, e.key ≠ "") ∧ c.feed.validate = .ok () := by
  have keys : c.endpoints.findIdx? (·.key = "") = none ↔ ∀ e ∈ c.endpoints, e.key ≠ "" := by
    simp only [List.findIdx?_eq_none_iff, decide_eq_false_iff_not, ne_eq]
  simp only [validate, ite_error_eq_ok_iff, Bool.not_eq_true, ← keys]
  cases c.endpoints.findIdx? (·.key = "") with
  | some index => simp only [reduceCtorEq, and_false, false_and]
  | none => simp only [Json.mapError_eq_ok_iff, true_and]

end AgentConfig

namespace Agent

variable {c : AgentConfig}

theorem bootstrap_ne_config (valid : c.validate = .ok ()) (discovery : Discovery) (host : Host)
    (cause : ConfigFault) : bootstrap c discovery host ≠ .error (.config cause) := by
  simp only [bootstrap, valid]
  cases resolved : c.bootstrapRequest.resolve discovery host c.endpointTable <;> nofun

theorem start_of_valid {state after : FeedState} {instant : Nat} {schedule later : Schedule}
    {result : Except FeedError FeedHandle} (valid : c.validate = .ok ())
    (fed : c.feed.start state.identity.facts.endpoint c.appName instant schedule state =
      (result, after, later)) :
    start c instant schedule state =
      ((result.map fun handle => ⟨c, after.identity, handle⟩).mapError .sync, after, later) := by
  rw [start, valid]
  simp only [fed]
  cases result <;> rfl

/-- A start fails by its configuration, by the wait or by the transport. The check of a
configuration covers its settings, which the feed checks once more. -/
theorem start_error {instant : Nat} {schedule : Schedule} {state : FeedState} {e : AgentError}
    (failed : (start c instant schedule state).1 = .error e) :
    (∃ fault, c.validate = .error fault ∧ e = .config fault) ∨
    e = .sync (.readiness ⟨c.feed.sessionWaitMs⟩) ∨
    (∃ cause, e = .sync (.sessionCreate cause)) ∨
    ∃ dataId cause, e = .sync (.subscribe dataId cause) := by
  cases valid : c.validate with
  | error fault =>
    rw [start, valid] at failed
    cases failed
    exact .inl ⟨fault, rfl, rfl⟩
  | ok _ =>
  rcases fed : c.feed.start state.identity.facts.endpoint c.appName instant schedule state with
    ⟨result, after, later⟩
  rw [start_of_valid valid fed] at failed
  cases result with
  | ok handle => cases failed
  | error cause =>
  cases failed
  have settings := ((AgentConfig.validate_eq_ok_iff c).mp valid).2.2.2.2
  rcases FeedSettings.start_error (congrArg Prod.fst fed) with
    ⟨fault, invalid, -⟩ | rfl | ⟨cause, rfl⟩ | ⟨dataId, cause, rfl⟩
  · rw [settings] at invalid
    cases invalid
  · exact .inr (.inl rfl)
  · exact .inr (.inr (.inl ⟨cause, rfl⟩))
  · exact .inr (.inr (.inr ⟨dataId, cause, rfl⟩))

theorem start_ne_config (valid : c.validate = .ok ()) (instant : Nat) (schedule : Schedule)
    (state : FeedState) (cause : ConfigFault) :
    (start c instant schedule state).1 ≠ .error (.config cause) := by
  intro failed
  rcases start_error failed with ⟨fault, invalid, -⟩ | same | ⟨cause, same⟩ | ⟨dataId, cause, same⟩
  · rw [valid] at invalid
    cases invalid
  all_goals cases same

theorem start_ne_sync_settings (c : AgentConfig) (instant : Nat) (schedule : Schedule)
    (state : FeedState) (cause : SettingsFault) :
    (start c instant schedule state).1 ≠ .error (.sync (.settings cause)) := by
  intro failed
  rcases start_error failed with ⟨fault, -, same⟩ | same | ⟨cause, same⟩ | ⟨dataId, cause, same⟩
  all_goals cases same

end Agent

namespace AgentConfig

/-- Only a file that cannot be read or decoded ends a load before its check. Otherwise the load
answers the stack of overrides, file and environment if that passes the check; neither step of an
agent's start then finds a fault in it, and the feed finds none in any configuration's settings. -/
theorem load_layers (env : Environment) (file : Option ConfigFile)
    (overrides : Option AgentConfig) :
    (∀ path, load env file overrides = .error (.unreadable path) ↔
      ∃ f, file = some f ∧ f.path = path ∧ f.content.bind String.fromUTF8? = none) ∧
    (∀ path, load env file overrides = .error (.undecodable path) ↔
      ∃ f text, file = some f ∧ f.path = path ∧
        f.content.bind String.fromUTF8? = some text ∧ ofToml? text = none) ∧
    (∀ decoded, FileLayer file decoded →
      ∃ m, m = stack (overrides.toList ++ decoded.toList ++ [env.config]) ∧
        m.endpoints = decoded.elim [] endpoints ++ overrides.elim [] endpoints ∧
        load env file overrides = match m.validate with
          | .ok _ => .ok m
          | .error fault => .error (.validation fault)) ∧
    (∀ c, load env file overrides = .ok c →
      (∀ discovery host cause, Agent.bootstrap c discovery host ≠ .error (.config cause)) ∧
      ∀ instant schedule state cause,
        (Agent.start c instant schedule state).1 ≠ .error (.config cause)) ∧
    ∀ c instant schedule state cause,
      (Agent.start c instant schedule state).1 ≠ .error (.sync (.settings cause)) := by
  refine ⟨fun path => load_eq_unreadable_iff, fun path => load_eq_undecodable_iff, ?_, ?_,
    Agent.start_ne_sync_settings⟩
  · intro decoded layer
    refine ⟨_, rfl, endpoints_stack_config env overrides decoded, ?_⟩
    rw [load_of_layer layer, validated_eq]
  · intro c loaded
    have valid := validate_of_load loaded
    exact ⟨Agent.bootstrap_ne_config valid, Agent.start_ne_config valid⟩

theorem load_layers_three :
    ∃ c : AgentConfig, c = ⟨"key", "default", "test", "shop", true, false,
        ⟨500, 30000, 8080, 30000⟩, [⟨"test", "", ""⟩, ⟨"stage", "", ""⟩]⟩ ∧
      load (fun name => if name = "RULESYNC_TIMEOUT_MS" then some " 500 "
          else if name = "RULESYNC_APP_NAME" then some "shop" else none)
        (some ⟨"agent.toml", some ("deploy_env = \"test\"\nsecure_transport = true\n" ++
          "[[endpoints]]\nkey = \"test\"\n").toUTF8⟩)
        (some { standard with license := "key", endpoints := [⟨"stage", "", ""⟩] }) = .ok c ∧
      ∀ discovery host cause, Agent.bootstrap c discovery host ≠ .error (.config cause) := by
  have decoded : FileLayer
      (some ⟨"agent.toml", some ("deploy_env = \"test\"\nsecure_transport = true\n" ++
        "[[endpoints]]\nkey = \"test\"\n").toUTF8⟩)
      (some { standard with
        deployEnv := "test", secureTransport := true, endpoints := [⟨"test", "", ""⟩] }) :=
    .decoded (fromUTF8?_toUTF8 _) (by decide +kernel)
  obtain ⟨-, -, layered, valid, -⟩ := load_layers
    (fun name => if name = "RULESYNC_TIMEOUT_MS" then some " 500 "
      else if name = "RULESYNC_APP_NAME" then some "shop" else none) _
    (some { standard with license := "key", endpoints := [⟨"stage", "", ""⟩] })
  obtain ⟨m, stacked, -, answered⟩ := layered _ decoded
  have whole : m = ⟨"key", "default", "test", "shop", true, false, ⟨500, 30000, 8080, 30000⟩,
      [⟨"test", "", ""⟩, ⟨"stage", "", ""⟩]⟩ := stacked.trans (by decide +kernel)
  have passed : m.validate = .ok () := by
    rw [whole]
    exact (Json.toOption_eq_some_iff _ _).mp (by decide +kernel)
  rw [passed] at answered
  exact ⟨m, whole, answered, (valid m answered).1⟩

end AgentConfig
end RuleFeed
