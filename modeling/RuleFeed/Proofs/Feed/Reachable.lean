import RuleFeed.Proofs.Feed.Listener
import RuleFeed.Proofs.Rule.Sound

/-!
Engines that only documents have been applied to. Whatever the documents are and whichever
categories are refused between them, every rule that such an engine holds is sound: one document
puts in sound rules only, and nothing else puts in a rule.
-/
namespace RuleFeed

inductive EngineEvent where
  | apply (c : Category) (payload : String)
  /-- From now on the engine refuses the category. -/
  | reject (c : Category)
  deriving DecidableEq

namespace Engine

def react (e : Engine) : EngineEvent → Engine
  | .apply c payload => (e.apply c payload).2
  | .reject c => e.reject c

def run (e : Engine) (events : List EngineEvent) : Engine := events.foldl react e

def Sound (e : Engine) : Prop := ∀ c, ∀ r ∈ e.sets.get c, Rule.Sound r

namespace Sound

variable {e : Engine}

theorem empty : Sound .empty := by
  intro c r mem
  rw [Engine.empty, RuleSets.get_empty] at mem
  cases mem

theorem install (sound : e.Sound) {c : Category} {rules : List (Rule c)}
    (sound_rules : ∀ r ∈ rules, Rule.Sound r) : (e.install c rules).Sound := by
  intro d r mem
  by_cases same : d = c
  · subst same
    rw [get_install] at mem
    exact sound_rules r mem
  · rw [get_install_of_ne e rules same] at mem
    exact sound d r mem

theorem apply (sound : e.Sound) (c : Category) (payload : String) :
    (e.apply c payload).2.Sound := by
  rcases apply_cases e c payload with
    ⟨f, decoded, answer⟩ | ⟨report, decoded, refused, answer⟩ | ⟨report, decoded, taken, answer⟩
  · rw [answer]
    exact sound
  · rw [answer]
    exact sound
  · rw [answer]
    exact sound.install (Report.sound_ofDocument decoded)

theorem react (sound : e.Sound) (event : EngineEvent) : (e.react event).Sound := by
  cases event with
  | apply c payload => exact sound.apply c payload
  | reject c => exact sound

theorem run (sound : e.Sound) (events : List EngineEvent) : (e.run events).Sound := by
  induction events generalizing e with
  | nil => exact sound
  | cons event events ih => exact ih (sound.react event)

end Sound

/-- Every rule that an engine can ever hold is sound, in each of the four categories. -/
theorem run_stores_sound_rules (events : List EngineEvent) :
    (∀ r ∈ (empty.run events).sets.flow, r.Sound) ∧
      (∀ r ∈ (empty.run events).sets.system, r.Sound) ∧
      (∀ r ∈ (empty.run events).sets.circuitBreaking, r.Sound) ∧
      ∀ r ∈ (empty.run events).sets.hotSpot, r.Sound := by
  have sound : (empty.run events).Sound := Sound.empty.run events
  exact ⟨sound .flow, sound .system, sound .circuitBreaking, sound .hotSpot⟩

/-- A break that no longer fits in milliseconds, kept through a malformed document and one that
comes after the refusal, and a system rule out of two records. -/
theorem run_stores_sound_rules_long_break :
    let events : List EngineEvent := [
      .apply .circuitBreaking
        "\x7b\"Data\":[\x7b\"id\":7,\"grade\":1,\"count\":5e-1,\"timeWindow\":4294968\x7d]\x7d",
      .apply .circuitBreaking "\x7b\"Data\":[\x7b\"count\":1e400\x7d]\x7d",
      .reject .circuitBreaking,
      .apply .circuitBreaking "\x7b\x7d",
      .apply .system ("\x7b\"Data\":[\x7b\"avgRt\":-1,\"maxThread\":-1,\"qps\":-1," ++
        "\"highestCpuUsage\":-1,\"highestSystemLoad\":-1\x7d," ++
        "\x7b\"avgRt\":-1,\"maxThread\":-1,\"qps\":-1,\"highestCpuUsage\":-0.0\x7d]\x7d")]
    let breaker : BreakerRule := { BreakerRule.blank with
      id := "7"
      strategy := .errorRatio
      retryTimeoutMs := 4294967295
      threshold := .ofDecimal false 5 (-1) }
    let system : SystemRule :=
      ⟨0, .cpuUsage, { Binary64.zero with negative := true }, .bbr⟩
    (breaker ∈ (empty.run events).sets.circuitBreaking ∧ breaker.Sound) ∧
      system ∈ (empty.run events).sets.system ∧ system.Sound := by
  intro events breaker system
  have broken : breaker ∈ (empty.run events).sets.circuitBreaking := by decide +kernel
  have loaded : system ∈ (empty.run events).sets.system := by decide +kernel
  obtain ⟨-, sound_system, sound_breaker, -⟩ := run_stores_sound_rules events
  exact ⟨⟨broken, sound_breaker breaker broken⟩, loaded, sound_system system loaded⟩

end Engine
end RuleFeed
