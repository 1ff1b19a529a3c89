import RuleFeed.Config.Environment
import RuleFeed.Proofs.Config.Part
import RuleFeed.Proofs.Json.Spelling
import RuleFeed.Proofs.Text.Blank
import RuleFeed.Proofs.Text.Decimal

/-!
What the environment says. Which number a text denotes is said by its digits, apart from how it is
read; a variable without a number in range leaves the default in place, whatever else it holds.
Each part of a configuration is decided by one variable, and the endpoints by none.
-/
namespace RuleFeed

open Json

theorem digit?_eq_some_iff {c : Char} {d : Nat} :
    digit? c = some d ↔ ∃ e : Fin 10, c = digitChar e.val ∧ e.val = d := by
  constructor
  · intro read
    obtain ⟨small, same⟩ := Decimal.digitChar_of_digit? read
    exact ⟨⟨d, small⟩, same.symm, rfl⟩
  · rintro ⟨e, rfl, rfl⟩
    exact digit?_digitChar e.isLt

theorem digitChar_inj {d e : Fin 10} : digitChar d.val = digitChar e.val ↔ d = e := by
  revert d e
  decide

namespace Decimal

theorem foldl_extend_none (cs : List Char) : cs.foldl extend none = none := by
  induction cs with
  | nil => rfl
  | cons c cs ih => exact ih

theorem foldl_extend_eq_some_iff {cs : List Char} {v n : Nat} :
    cs.foldl extend (some v) = some n ↔
      ∃ ds, digitChars ds = cs ∧ ds.foldl (fun n d => n * 10 + d.val) v = n := by
  induction cs generalizing v with
  | nil =>
    simp only [digitChars, List.map_eq_nil_iff, exists_eq_left, List.foldl_nil, Option.some.injEq]
  | cons c cs ih =>
    have split (ds : List (Fin 10)) : digitChars ds = c :: cs ↔
        ∃ d es, ds = d :: es ∧ digitChar d.val = c ∧ digitChars es = cs := List.map_eq_cons_iff
    simp only [split, List.foldl_cons]
    by_cases digit : ∃ e : Fin 10, digitChar e.val = c
    · obtain ⟨e, rfl⟩ := digit
      have next : extend (some v) (digitChar e.val) = some (v * 10 + e.val) := by
        simp [extend, digit?_digitChar e.isLt]
      rw [next, ih]
      constructor
      · rintro ⟨es, rest, value⟩
        exact ⟨e :: es, ⟨e, es, rfl, rfl, rest⟩, value⟩
      · rintro ⟨_, ⟨d, es, rfl, first, rest⟩, value⟩
        obtain rfl := digitChar_inj.mp first
        exact ⟨es, rest, value⟩
    · have other : digit? c = none := by
        refine Option.eq_none_iff_forall_ne_some.mpr fun d read => digit ?_
        obtain ⟨e, same, -⟩ := digit?_eq_some_iff.mp read
        exact ⟨e, same.symm⟩
      have nothing : extend (some v) c = none := by simp [extend, other]
      rw [nothing, foldl_extend_none]
      refine iff_of_false (Option.some_ne_none n).symm ?_
      rintro ⟨_, ⟨d, es, -, first, -⟩, -⟩
      exact digit ⟨d, first⟩

theorem read?_eq_some_iff {cs : List Char} {n : Nat} :
    read? cs = some n ↔ ∃ ds, ds ≠ [] ∧ digitChars ds = cs ∧ digitsValue ds = n := by
  cases cs with
  | nil =>
    refine ⟨nofun, ?_⟩
    rintro ⟨ds, nonempty, none, -⟩
    exact absurd (List.map_eq_nil_iff.mp none) nonempty
  | cons c cs =>
    refine foldl_extend_eq_some_iff.trans (exists_congr fun ds => ?_)
    refine ⟨fun ⟨same, value⟩ => ⟨?_, same, value⟩, And.right⟩
    rintro rfl
    cases same

end Decimal

/-- The text is one or more digits of a number, with or without a plus sign before them. -/
def Unsigned (cs : List Char) (n : Nat) : Prop :=
  ∃ ds : List (Fin 10), ds ≠ [] ∧ (digitChars ds = cs ∨ '+' :: digitChars ds = cs) ∧
    digitsValue ds = n

theorem unsigned?_eq_some_iff {max n : Nat} {cs : List Char} :
    unsigned? max cs = some n ↔ Unsigned cs n ∧ n ≤ max := by
  have bounded (read : Option Nat) :
      (read.bind fun n => if n ≤ max then some n else none) = some n ↔ read = some n ∧ n ≤ max := by
    cases read with
    | none => simp
    | some m => by_cases small : m ≤ max <;> simp [small] <;> grind
  have plain (d : Fin 10) : digitChar d.val ≠ '+' := by
    revert d
    decide
  refine (bounded _).trans (and_congr_left fun _ => ?_)
  split
  case h_1 digits =>
    refine Decimal.read?_eq_some_iff.trans <|
      exists_congr fun ds => and_congr_right fun nonempty => ?_
    constructor
    · rintro ⟨rfl, value⟩
      exact ⟨.inr rfl, value⟩
    · rintro ⟨bare | signed, value⟩
      · cases ds with
        | nil => exact absurd rfl nonempty
        | cons d ds => exact absurd (List.cons.inj bare).1 (plain d)
      · exact ⟨(List.cons.inj signed).2, value⟩
  case h_2 unsigned =>
    refine Decimal.read?_eq_some_iff.trans (exists_congr fun ds => and_congr_right fun _ => ?_)
    refine and_congr_left fun _ => ⟨.inl, ?_⟩
    rintro (bare | signed)
    · exact bare
    · exact absurd signed.symm (unsigned _)

theorem flag?_eq_some_true_iff {cs : List Char} : flag? cs = some true ↔ cs = "true".toList := by
  unfold flag?
  split
  case isTrue yes => exact iff_of_true rfl yes
  case isFalse no =>
    refine iff_of_false ?_ no
    split <;> nofun

namespace Environment

variable {env : Environment}

def Holds (env : Environment) (name : String) (max n : Nat) : Prop :=
  ∃ s body, env name = some s ∧ Trimmed s.toList body ∧ Unsigned body n ∧ n ≤ max

/-- The number that the variable holds, or the default if it holds none in range. -/
structure NumberIs (env : Environment) (name : String) (max default value : Nat) : Prop where
  held : ∀ n, Holds env name max n → value = n
  unset : (∀ n, ¬Holds env name max n) → value = default

structure TextIs (env : Environment) (name default value : String) : Prop where
  held : ∀ s, env name = some s → value = s
  unset : env name = none → value = default

def FlagIs (env : Environment) (name : String) (value : Bool) : Prop :=
  value = true ↔ ∃ s, env name = some s ∧ Trimmed s.toList "true".toList

theorem holds_iff {name : String} {max n : Nat} :
    Holds env name max n ↔
      ((env name).map fun s => trim s.toList).bind (unsigned? max) = some n := by
  cases found : env name with
  | none => simp [Holds, found]
  | some s => simp [Holds, found, trimmed_iff, unsigned?_eq_some_iff]

theorem number_is (env : Environment) (name : String) (max default : Nat) :
    NumberIs env name max default (env.number name max default) := by
  refine ⟨fun n held => ?_, fun unset => ?_⟩
  · rw [number, holds_iff.mp held]
    rfl
  · simp only [holds_iff, ← Option.eq_none_iff_forall_ne_some] at unset
    rw [number, unset]
    rfl

theorem number_le {name : String} {max default : Nat} (small : default ≤ max) :
    env.number name max default ≤ max := by
  unfold number
  cases read : ((env name).map fun s => trim s.toList).bind (unsigned? max) with
  | none => exact small
  | some n =>
    obtain ⟨_, _, -, -, -, bound⟩ := holds_iff.mpr read
    exact bound

theorem text_is (env : Environment) (name default : String) :
    TextIs env name default (env.text name default) :=
  ⟨fun s found => by rw [text, found]; rfl, fun unset => by rw [text, unset]; rfl⟩

theorem flag_is (env : Environment) (name : String) : FlagIs env name (env.flag name) := by
  unfold FlagIs flag
  cases found : env name with
  | none => simp
  | some s =>
    have read (f : Option Bool) : f.getD false = true ↔ f = some true := by
      cases f <;> simp
    simp only [Option.map_some, Option.bind_some, read, flag?_eq_some_true_iff, Option.some.injEq,
      exists_eq_left', trimmed_iff]

/-- What the variables say about a configuration. -/
structure Decodes (env : Environment) (c : AgentConfig) : Prop where
  license : TextIs env "RULESYNC_LICENSE" "" c.license
  namespaceName : TextIs env "RULESYNC_NAMESPACE" "default" c.namespaceName
  deployEnv : TextIs env "RULESYNC_DEPLOY_ENV" "prod" c.deployEnv
  appName : TextIs env "RULESYNC_APP_NAME" "" c.appName
  secureTransport : FlagIs env "RULESYNC_SECURE_TRANSPORT" c.secureTransport
  debugging : FlagIs env "RULESYNC_DEBUG" c.debugging
  timeoutMs : NumberIs env "RULESYNC_TIMEOUT_MS" 0xffffffffffffffff
    FeedSettings.standard.timeoutMs.toNat c.feed.timeoutMs.toNat
  listenIntervalMs : NumberIs env "RULESYNC_LISTEN_INTERVAL_MS" 0xffffffffffffffff
    FeedSettings.standard.listenIntervalMs.toNat c.feed.listenIntervalMs.toNat
  transportPort : NumberIs env "RULESYNC_TRANSPORT_PORT" 0xffff
    FeedSettings.standard.transportPort.toNat c.feed.transportPort.toNat
  sessionWaitMs : NumberIs env "RULESYNC_SESSION_WAIT_TIMEOUT_MS" 0xffffffffffffffff
    FeedSettings.standard.sessionWaitMs.toNat c.feed.sessionWaitMs.toNat
  endpoints : c.endpoints = []

theorem numberIs_uint64 {name : String} {default : Nat} (small : default ≤ 0xffffffffffffffff) :
    NumberIs env name 0xffffffffffffffff default
      (UInt64.ofNat (env.number name 0xffffffffffffffff default)).toNat := by
  rw [UInt64.toNat_ofNat_of_lt' (Nat.lt_of_le_of_lt (number_le small) (by decide))]
  exact env.number_is name _ default

theorem numberIs_uint16 {name : String} {default : Nat} (small : default ≤ 0xffff) :
    NumberIs env name 0xffff default (UInt16.ofNat (env.number name 0xffff default)).toNat := by
  rw [UInt16.toNat_ofNat_of_lt' (Nat.lt_of_le_of_lt (number_le small) (by decide))]
  exact env.number_is name _ default

theorem decodes_config (env : Environment) : env.Decodes env.config where
  license := env.text_is _ _
  namespaceName := env.text_is _ _
  deployEnv := env.text_is _ _
  appName := env.text_is _ _
  secureTransport := env.flag_is _
  debugging := env.flag_is _
  timeoutMs := numberIs_uint64 (by decide)
  listenIntervalMs := numberIs_uint64 (by decide)
  transportPort := numberIs_uint16 (by decide)
  sessionWaitMs := numberIs_uint64 (by decide)
  endpoints := rfl

end Environment

namespace AgentConfig.Part

/-- The variable that decides a part; the endpoints have none. -/
def source? : AgentConfig.Part → Option String
  | license => some "RULESYNC_LICENSE"
  | namespaceName => some "RULESYNC_NAMESPACE"
  | deployEnv => some "RULESYNC_DEPLOY_ENV"
  | appName => some "RULESYNC_APP_NAME"
  | secureTransport => some "RULESYNC_SECURE_TRANSPORT"
  | debugging => some "RULESYNC_DEBUG"
  | feed .timeoutMs => some "RULESYNC_TIMEOUT_MS"
  | feed .listenIntervalMs => some "RULESYNC_LISTEN_INTERVAL_MS"
  | feed .transportPort => some "RULESYNC_TRANSPORT_PORT"
  | feed .sessionWaitMs => some "RULESYNC_SESSION_WAIT_TIMEOUT_MS"
  | endpoints => none

end AgentConfig.Part

namespace Environment

def names : List String := [
  "RULESYNC_LICENSE", "RULESYNC_NAMESPACE", "RULESYNC_DEPLOY_ENV", "RULESYNC_APP_NAME",
  "RULESYNC_SECURE_TRANSPORT", "RULESYNC_DEBUG", "RULESYNC_TIMEOUT_MS",
  "RULESYNC_LISTEN_INTERVAL_MS", "RULESYNC_TRANSPORT_PORT", "RULESYNC_SESSION_WAIT_TIMEOUT_MS"]

theorem mem_names {p : AgentConfig.Part} {name : String} (own : name ∈ p.source?) :
    name ∈ names := by
  cases p with
  | feed p => cases p <;> cases own <;> decide
  | endpoints => cases own
  | _ => cases own; decide

theorem same_config {env env' : Environment} {p : AgentConfig.Part}
    (agree : ∀ name ∈ p.source?, env name = env' name) :
    AgentConfig.Part.Same env.config env'.config p := by
  cases p with
  | endpoints => rfl
  | feed p =>
    cases p <;> simp only [AgentConfig.Part.Same, FeedSettings.Part.Same, config, feed, number,
      agree _ rfl]
  | _ => simp only [AgentConfig.Part.Same, config, text, flag, agree _ rfl]

/-- Texts are taken as they are, flags are set by `true` alone, and a number is what the digits of
its variable denote if they are in range, else the default. No part looks at another's variable. -/
theorem config_decodes (env : Environment) :
    env.Decodes env.config ∧
    (∀ (env' : Environment) (p : AgentConfig.Part),
      (∀ name ∈ p.source?, env name = env' name) →
        AgentConfig.Part.Same env.config env'.config p) ∧
    ∀ env' : Environment, (∀ name ∈ names, env name = env' name) → env.config = env'.config :=
  ⟨env.decodes_config, fun _ _ => same_config, fun _ agree =>
    AgentConfig.eq_of_same fun _ => same_config fun name own => agree name (mem_names own)⟩

/-- The largest port with a sign and zeros before it, a timeout that is one too large, a flag in
capitals and an empty namespace. -/
theorem config_decodes_extremes :
    let port : Environment := fun name =>
      if name = "RULESYNC_TRANSPORT_PORT" then some "\t+0065535\u2003" else none
    let env : Environment := fun name =>
      if name = "RULESYNC_TIMEOUT_MS" then some "18446744073709551616"
      else if name = "RULESYNC_DEBUG" then some "TRUE"
      else if name = "RULESYNC_NAMESPACE" then some ""
      else port name
    env.config.feed.transportPort = 65535 ∧ port.config.feed.transportPort = 65535 ∧
      env.config.feed.timeoutMs = 3000 ∧ env.config.debugging = false ∧
      env.config.namespaceName = "" := by
  intro port env
  obtain ⟨decodes, own, -⟩ := config_decodes env
  have held : Holds env "RULESYNC_TRANSPORT_PORT" 0xffff 65535 :=
    ⟨"\t+0065535\u2003", "+0065535".toList, rfl, trimmed_iff.mpr (by decide),
      ⟨[0, 0, 6, 5, 5, 3, 5], by decide, by decide, by decide⟩, by decide⟩
  have largest : env.config.feed.transportPort = 65535 :=
    UInt16.toNat_inj.mp (decodes.transportPort.held _ held)
  have same := own port (.feed .transportPort) (by decide)
  refine ⟨largest, same ▸ largest, ?_, ?_, decodes.namespaceName.held "" rfl⟩
  · refine UInt64.toNat_inj.mp (decodes.timeoutMs.unset fun n held => ?_)
    have read :
        (some "18446744073709551616".toList).bind (unsigned? 0xffffffffffffffff) = none := by
      decide
    exact absurd (read.symm.trans (holds_iff.mp held)) nofun
  · refine Bool.eq_false_iff.mpr fun set => ?_
    obtain ⟨_, found, trimmed⟩ := decodes.debugging.mp set
    cases Option.some.inj found
    exact absurd (trimmed_iff.mp trimmed) (by decide)

end Environment
end RuleFeed
