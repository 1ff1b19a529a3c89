import RuleFeed.Config

/-!
The parts of a configuration, one for each thing that can be set. The settings of the feed are
parts of their own. Two configurations that are the same in every part are the same.
-/
namespace RuleFeed

inductive FeedSettings.Part where
  | timeoutMs
  | listenIntervalMs
  | transportPort
  | sessionWaitMs
  deriving DecidableEq, Repr

inductive AgentConfig.Part where
  | license
  | namespaceName
  | deployEnv
  | appName
  | secureTransport
  | debugging
  | feed (p : FeedSettings.Part)
  | endpoints
  deriving DecidableEq, Repr

namespace FeedSettings

def Part.Same (s t : FeedSettings) : Part → Prop
  | timeoutMs => s.timeoutMs = t.timeoutMs
  | listenIntervalMs => s.listenIntervalMs = t.listenIntervalMs
  | transportPort => s.transportPort = t.transportPort
  | sessionWaitMs => s.sessionWaitMs = t.sessionWaitMs

theorem eq_of_same {s t : FeedSettings} (same : ∀ p, Part.Same s t p) : s = t := by
  obtain ⟨a, b, c, d⟩ := s
  obtain ⟨a', b', c', d'⟩ := t
  obtain rfl : a = a' := same .timeoutMs
  obtain rfl : b = b' := same .listenIntervalMs
  obtain rfl : c = c' := same .transportPort
  obtain rfl : d = d' := same .sessionWaitMs
  rfl

end FeedSettings

namespace AgentConfig

def Part.Same (c d : AgentConfig) : Part → Prop
  | license => c.license = d.license
  | namespaceName => c.namespaceName = d.namespaceName
  | deployEnv => c.deployEnv = d.deployEnv
  | appName => c.appName = d.appName
  | secureTransport => c.secureTransport = d.secureTransport
  | debugging => c.debugging = d.debugging
  | feed p => FeedSettings.Part.Same c.feed d.feed p
  | endpoints => c.endpoints = d.endpoints

theorem eq_of_same {c d : AgentConfig} (same : ∀ p, Part.Same c d p) : c = d := by
  have feed : c.feed = d.feed := FeedSettings.eq_of_same fun p => same (.feed p)
  obtain ⟨a, b, e, f, g, h, _, i⟩ := c
  obtain ⟨a', b', e', f', g', h', _, i'⟩ := d
  obtain rfl : a = a' := same .license
  obtain rfl : b = b' := same .namespaceName
  obtain rfl : e = e' := same .deployEnv
  obtain rfl : f = f' := same .appName
  obtain rfl : g = g' := same .secureTransport
  obtain rfl : h = h' := same .debugging
  obtain rfl : i = i' := same .endpoints
  obtain rfl := feed
  rfl

end AgentConfig
end RuleFeed
