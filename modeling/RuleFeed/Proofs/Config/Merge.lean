import RuleFeed.Proofs.Config.Layers

/-!
Merging as an operation on configurations. The standard configuration is its unit and it may be
grouped in any way, so a stack of layers can be cut anywhere and its two halves merged. A merged
configuration is drawn from its two layers field by field. What a check asks of one field at a time
holds of a merge over a valid configuration exactly if the upper layer asks for nothing wrong: it is
valid itself, or it would be if it named an application.
-/
namespace RuleFeed

section Layered

variable {α : Type} [DecidableEq α] {default : α}

theorem layered_of_ne {upper : α} (set : upper ≠ default) (lower : α) :
    layered default lower upper = upper := if_neg set

@[simp] theorem layered_unset (lower : α) : layered default lower default = lower := if_pos rfl

theorem layered_assoc (a b c : α) :
    layered default (layered default a b) c = layered default a (layered default b c) := by
  by_cases unset : c = default
  · rw [unset, layered_unset, layered_unset]
  · rw [layered_of_ne unset, layered_of_ne unset, layered_of_ne unset]

theorem layered_choice (lower upper : α) :
    layered default lower upper = lower ∨ layered default lower upper = upper := by
  by_cases unset : upper = default
  · exact .inl (by rw [unset, layered_unset])
  · exact .inr (layered_of_ne unset lower)

variable {p : α → Prop} {lower : α}

/-- What holds of the lower value holds of both together unless the upper one is set against it. -/
theorem layered_iff (holds : p lower) (upper : α) :
    p (layered default lower upper) ↔ upper = default ∨ p upper := by
  by_cases unset : upper = default
  · rw [unset, layered_unset]
    exact iff_of_true holds (.inl rfl)
  · rw [layered_of_ne unset, or_iff_right unset]

theorem layered_iff_of_default (holds : p lower) (standard : p default) (upper : α) :
    p (layered default lower upper) ↔ p upper := by
  rw [layered_iff holds, or_iff_right_of_imp]
  rintro rfl
  exact standard

end Layered

namespace FeedSettings

theorem merge_assoc (a b c : FeedSettings) : (a.merge b).merge c = a.merge (b.merge c) := by
  simp only [merge, layered_assoc]

@[simp] theorem standard_merge (s : FeedSettings) : standard.merge s = s := by
  simp only [standard, merge, layered_default]

@[simp] theorem merge_standard (s : FeedSettings) : s.merge standard = s := by
  simp only [standard, merge, layered_unset]

structure Drawn (lower upper merged : FeedSettings) : Prop where
  timeoutMs : merged.timeoutMs = lower.timeoutMs ∨ merged.timeoutMs = upper.timeoutMs
  listenIntervalMs : merged.listenIntervalMs = lower.listenIntervalMs ∨
    merged.listenIntervalMs = upper.listenIntervalMs
  transportPort : merged.transportPort = lower.transportPort ∨
    merged.transportPort = upper.transportPort
  sessionWaitMs : merged.sessionWaitMs = lower.sessionWaitMs ∨
    merged.sessionWaitMs = upper.sessionWaitMs

theorem drawn_merge (lower upper : FeedSettings) : Drawn lower upper (lower.merge upper) where
  timeoutMs := layered_choice _ _
  listenIntervalMs := layered_choice _ _
  transportPort := layered_choice _ _
  sessionWaitMs := layered_choice _ _

theorem validate_merge_iff {lower : FeedSettings} (valid : lower.validate = .ok ())
    (upper : FeedSettings) : (lower.merge upper).validate = .ok () ↔ upper.validate = .ok () := by
  rw [validate_eq_ok_iff] at valid ⊢
  obtain ⟨timeout, listening, port, wait⟩ := valid
  rw [validate_eq_ok_iff]
  exact and_congr (layered_iff_of_default (p := fun n => n ≠ 0 ∧ n ≤ maxTimeoutMs) timeout
      (by decide) _) <|
    and_congr (layered_iff_of_default (p := (· ≠ 0)) listening (by decide) _) <|
    and_congr (layered_iff_of_default (p := (· ≠ 0)) port (by decide) _)
      (layered_iff_of_default (p := fun n => n ≠ 0 ∧ n ≤ maxSessionWaitMs) wait (by decide) _)

end FeedSettings

namespace AgentConfig

theorem merge_assoc (a b c : AgentConfig) : (a.merge b).merge c = a.merge (b.merge c) := by
  simp only [merge, layered_assoc, FeedSettings.merge_assoc, Bool.or_assoc, List.append_assoc]

@[simp] theorem standard_merge (c : AgentConfig) : standard.merge c = c := by
  simp only [standard, merge, layered_default, FeedSettings.standard_merge, Bool.false_or,
    List.nil_append]

@[simp] theorem merge_standard (c : AgentConfig) : c.merge standard = c := by
  simp only [standard, merge, layered_unset, FeedSettings.merge_standard, Bool.or_false,
    List.append_nil]

theorem stack_nil : stack [] = standard := rfl

theorem stack_append (uppers lowers : List AgentConfig) :
    stack (uppers ++ lowers) = (stack lowers).merge (stack uppers) := by
  induction uppers with
  | nil => rw [List.nil_append, stack_nil, merge_standard]
  | cons upper uppers ih => rw [List.cons_append, stack_cons, stack_cons, ih, merge_assoc]

/-- Each text and each setting comes from one of two layers; flags and endpoints come from both. -/
structure Drawn (lower upper merged : AgentConfig) : Prop where
  license : merged.license = lower.license ∨ merged.license = upper.license
  namespaceName : merged.namespaceName = lower.namespaceName ∨
    merged.namespaceName = upper.namespaceName
  deployEnv : merged.deployEnv = lower.deployEnv ∨ merged.deployEnv = upper.deployEnv
  appName : merged.appName = lower.appName ∨ merged.appName = upper.appName
  secureTransport : merged.secureTransport = (lower.secureTransport || upper.secureTransport)
  debugging : merged.debugging = (lower.debugging || upper.debugging)
  feed : FeedSettings.Drawn lower.feed upper.feed merged.feed
  endpoints : merged.endpoints = lower.endpoints ++ upper.endpoints

theorem drawn_merge (lower upper : AgentConfig) : Drawn lower upper (lower.merge upper) where
  license := layered_choice _ _
  namespaceName := layered_choice _ _
  deployEnv := layered_choice _ _
  appName := layered_choice _ _
  secureTransport := rfl
  debugging := rfl
  feed := FeedSettings.drawn_merge _ _
  endpoints := rfl

/-- A configuration that passes its check, or that names no application and would pass if it did. -/
def ValidLayer (c : AgentConfig) : Prop :=
  c.validate = .ok () ∨
    c.appName = "" ∧ ∃ name, ({ c with appName := name } : AgentConfig).validate = .ok ()

theorem validLayer_iff (c : AgentConfig) :
    c.ValidLayer ↔ (c.appName = "" ∨ allBlank c.appName = false) ∧ c.namespaceName ≠ "" ∧
      c.deployEnv ≠ "" ∧ (∀ e ∈ c.endpoints, e.key ≠ "") ∧ c.feed.validate = .ok () := by
  simp only [ValidLayer, validate_eq_ok_iff]
  constructor
  · rintro (⟨named, others⟩ | ⟨unnamed, name, -, others⟩)
    · exact ⟨.inr named, others⟩
    · exact ⟨.inl unnamed, others⟩
  · rintro ⟨unnamed | named, others⟩
    · exact .inr ⟨unnamed, "app", by decide, others⟩
    · exact .inl ⟨named, others⟩

theorem validate_merge_iff {lower : AgentConfig} (valid : lower.validate = .ok ())
    (upper : AgentConfig) : (lower.merge upper).validate = .ok () ↔ upper.ValidLayer := by
  obtain ⟨named, spaced, placed, keyed, fed⟩ := (validate_eq_ok_iff lower).mp valid
  have keys : (∀ e ∈ lower.endpoints ++ upper.endpoints, e.key ≠ "") ↔
      ∀ e ∈ upper.endpoints, e.key ≠ "" := by
    rw [List.forall_mem_append, and_iff_right keyed]
  rw [validLayer_iff, validate_eq_ok_iff]
  exact and_congr (layered_iff (p := fun name => allBlank name = false) named _) <|
    and_congr (layered_iff_of_default (p := (· ≠ "")) spaced (by decide) _) <|
    and_congr (layered_iff_of_default (p := (· ≠ "")) placed (by decide) _) <|
    and_congr keys (FeedSettings.validate_merge_iff fed _)

/-- Configurations form a monoid under merging, and so do their settings. Nothing in a merged
configuration is in neither layer. Over a valid configuration exactly the valid layers give a valid
one: an upper layer may leave the application unnamed, but not name it by blanks. -/
theorem merge_monoid :
    (∀ a b c : AgentConfig, (a.merge b).merge c = a.merge (b.merge c)) ∧
    (∀ a : AgentConfig, standard.merge a = a ∧ a.merge standard = a) ∧
    (∀ s t u : FeedSettings, (s.merge t).merge u = s.merge (t.merge u)) ∧
    (∀ s : FeedSettings, FeedSettings.standard.merge s = s ∧ s.merge FeedSettings.standard = s) ∧
    (∀ a b : AgentConfig, Drawn a b (a.merge b)) ∧
    ∀ a b : AgentConfig, a.validate = .ok () →
      ((a.merge b).validate = .ok () ↔ b.ValidLayer) :=
  ⟨merge_assoc, fun a => ⟨standard_merge a, merge_standard a⟩, FeedSettings.merge_assoc,
    fun s => ⟨FeedSettings.standard_merge s, FeedSettings.merge_standard s⟩, drawn_merge,
    fun _ b valid => validate_merge_iff valid b⟩

/-- A layer without a name keeps the one below; a layer with a blank name spoils it. -/
theorem merge_monoid_blank_name :
    let base : AgentConfig := { standard with
      appName := "shop", feed := { FeedSettings.standard with timeoutMs := 500 } }
    let unnamed : AgentConfig := { standard with
      deployEnv := "test", feed := { FeedSettings.standard with transportPort := 9090 } }
    let blank : AgentConfig := { unnamed with appName := " " }
    base.merge unnamed = { standard with
        deployEnv := "test", appName := "shop", feed := ⟨500, 30000, 9090, 30000⟩ } ∧
      (base.merge unnamed).validate = .ok () ∧ (base.merge blank).validate ≠ .ok () := by
  intro base unnamed blank
  have valid : base.validate = .ok () := (Json.toOption_eq_some_iff _ _).mp (by decide)
  have named : ({ unnamed with appName := "shop" } : AgentConfig).validate = .ok () :=
    (Json.toOption_eq_some_iff _ _).mp (by decide)
  obtain ⟨-, -, -, -, -, closed⟩ := merge_monoid
  refine ⟨by decide, (closed base unnamed valid).mpr (.inr ⟨rfl, "shop", named⟩), fun passed => ?_⟩
  have fits := (validLayer_iff blank).mp ((closed base blank valid).mp passed)
  exact absurd fits.1 (by decide)

end AgentConfig
end RuleFeed
