import RuleFeed.Proofs.Config.Merge
import RuleFeed.Proofs.Config.Part
import RuleFeed.Proofs.Config.Shape
import RuleFeed.Proofs.Json.Partial
import RuleFeed.Proofs.Json.Writable

/-!
Documents that set some parts of a configuration. Such a document has a member for each part that
it sets, in any order, and may have members of any other names. The configuration that is read has
these parts and is standard in all others; so it changes no other part of a configuration that it is
merged into, and of its own parts those that differ from the standard.
-/
namespace RuleFeed

open Json

namespace FeedSettings

def names : List String :=
  ["timeout_ms", "listen_interval_ms", "transport_port", "session_wait_timeout_ms"]

def entries (set : Part → Bool) (s : FeedSettings) : List (Bool × Entry) := [
  (set .timeoutMs, "timeout_ms", fun t => t.Writes (.integer s.timeoutMs.toNat)),
  (set .listenIntervalMs, "listen_interval_ms",
    fun t => t.Writes (.integer s.listenIntervalMs.toNat)),
  (set .transportPort, "transport_port", fun t => t.Writes (.integer s.transportPort.toNat)),
  (set .sessionWaitMs, "session_wait_timeout_ms",
    fun t => t.Writes (.integer s.sessionWaitMs.toNat))]

def Sets (set : Part → Bool) (s : FeedSettings) : Spelling → Prop :=
  Spelling.WritesObject names (chosen (entries set s))

def only (set : Part → Bool) (s : FeedSettings) : FeedSettings where
  timeoutMs := if set .timeoutMs then s.timeoutMs else defaultTimeoutMs
  listenIntervalMs := if set .listenIntervalMs then s.listenIntervalMs else defaultListenIntervalMs
  transportPort := if set .transportPort then s.transportPort else defaultTransportPort
  sessionWaitMs := if set .sessionWaitMs then s.sessionWaitMs else defaultSessionWaitMs

theorem readsAs_only (set : Part → Bool) (s : FeedSettings) :
    ReadsAs (Sets set s) shape.read (only set s) :=
  Shape.readsAs_of_supplies separate rfl <|
    .optional (Value.readAs_uint64 _) rfl <|
    .optional (Value.readAs_uint64 _) rfl <|
    .optional (Value.readAs_uint16 _) rfl <|
    .optional (Value.readAs_uint64 _) rfl .nil

theorem exists_sets (set : Part → Bool) (s : FeedSettings) : ∃ t, Sets set s t := by
  refine Spelling.WritesObject.exists _ names ?_
  simp only [entries, List.forall_mem_cons, List.not_mem_nil, false_imp_iff, implies_true, and_true]
  exact ⟨Value.writable_integer _, Value.writable_integer _, Value.writable_integer _,
    Value.writable_integer _⟩

/-- The settings have these parts of the others and are at their defaults in all parts else. -/
structure HasOnly (set : Part → Bool) (s d : FeedSettings) : Prop where
  own : ∀ p, set p = true → Part.Same d s p
  rest : ∀ p, set p = false → Part.Same d standard p

theorem hasOnly_only (set : Part → Bool) (s : FeedSettings) : HasOnly set s (only set s) where
  own p given := by cases p <;> exact if_pos given
  rest p unset := by cases p <;> exact if_neg (Bool.eq_false_iff.mp unset)

theorem only_eq_standard {set : Part → Bool} (unset : ∀ p, set p = false) (s : FeedSettings) :
    only set s = standard :=
  eq_of_same fun p => (hasOnly_only set s).rest p (unset p)

theorem only_eq_self {set : Part → Bool} (given : ∀ p, set p = true) (s : FeedSettings) :
    only set s = s :=
  eq_of_same fun p => (hasOnly_only set s).own p (given p)

namespace Part.Same

variable {s t u : FeedSettings} {p : Part}

theorem symm (h : Same s t p) : Same t s p := by
  cases p <;> exact Eq.symm h

theorem trans (h : Same s t p) (h' : Same t u p) : Same s u p := by
  cases p <;> exact Eq.trans h h'

theorem merge_of_unset (unset : Same t standard p) (base : FeedSettings) :
    Same (base.merge t) base p := by
  cases p <;> exact if_pos unset

theorem merge_of_set (given : ¬Same t standard p) (base : FeedSettings) :
    Same (base.merge t) t p := by
  cases p <;> exact if_neg given

end Part.Same

/-- What merging a document's settings into others does to a part. -/
structure Updates (set : Part → Bool) (s base merged : FeedSettings) : Prop where
  changed : ∀ p, set p = true → ¬Part.Same s standard p → Part.Same merged s p
  kept : ∀ p, set p = false ∨ Part.Same s standard p → Part.Same merged base p

theorem HasOnly.updates {set : Part → Bool} {s d : FeedSettings} (has : HasOnly set s d)
    (base : FeedSettings) : Updates set s base (base.merge d) where
  changed p given differs := by
    have own := has.own p given
    exact (Part.Same.merge_of_set (fun unset => differs (own.symm.trans unset)) base).trans own
  kept p unset := by
    refine Part.Same.merge_of_unset ?_ base
    cases given : set p with
    | false => exact has.rest p given
    | true =>
      rcases unset with absent | unset
      · cases given.symm.trans absent
      · exact (has.own p given).trans unset

end FeedSettings

namespace EndpointOverride

def names : List String := ["key", "insecure", "secure"]

def entries (insecure secure : Bool) (e : EndpointOverride) : List (Bool × Entry) := [
  (true, "key", fun t => t.Writes (.text e.key)),
  (insecure, "insecure", fun t => t.Writes (.text e.insecure)),
  (secure, "secure", fun t => t.Writes (.text e.secure))]

/-- The object is the endpoint; a host may be left out if it is empty. -/
inductive Written (e : EndpointOverride) : Spelling → Prop
  | intro {t : Spelling} (insecure secure : Bool) (empty : insecure = false → e.insecure = "")
      (empty' : secure = false → e.secure = "")
      (object : t.WritesObject names (chosen (entries insecure secure e))) : Written e t

theorem readsAs_written (e : EndpointOverride) : ReadsAs (Written e) shape.read e := by
  rintro t ⟨insecure, secure, empty, empty', object⟩
  have host {w : Bool} {host : String} (empty : w = false → host = "") :
      (if w then host else "") = host := by
    cases w with
    | false => rw [empty rfl]; rfl
    | true => rfl
  have key : ReadsAs (fun t => t.Writes (.text e.key))
      (Field.required "key" Node.string fun v (b : EndpointOverride) => { b with key := v }).update
      fun b => { b with key := e.key } := by
    intro s spelled
    simp only [Field.required, Value.readAs_text _ s spelled]
    rfl
  have supplies : Supplies shape.fields (entries insecure secure e) shape.blank
      ⟨e.key, if insecure then e.insecure else "", if secure then e.secure else ""⟩ :=
    .written key <| .optional (Value.readAs_text _) rfl <|
      .optional (Value.readAs_text _) rfl .nil
  rw [host empty, host empty'] at supplies
  exact Shape.readsAs_of_supplies separate rfl supplies t object

theorem exists_written (e : EndpointOverride) : ∃ t, Written e t := by
  have object := Spelling.WritesObject.exists (entries true true e) names <| by
    simp only [entries, List.forall_mem_cons, List.not_mem_nil, false_imp_iff, implies_true,
      and_true]
    exact ⟨Value.writable_text _, Value.writable_text _, Value.writable_text _⟩
  obtain ⟨t, object⟩ := object
  exact ⟨t, .intro true true (by simp) (by simp) object⟩

end EndpointOverride

namespace AgentConfig

def names : List String :=
  ["license", "namespace", "deploy_env", "app_name", "secure_transport", "debugging", "datasource",
    "endpoints"]

def entries (set : Part → Bool) (table : Bool) (c : AgentConfig) : List (Bool × Entry) := [
  (set .license, "license", fun t => t.Writes (.text c.license)),
  (set .namespaceName, "namespace", fun t => t.Writes (.text c.namespaceName)),
  (set .deployEnv, "deploy_env", fun t => t.Writes (.text c.deployEnv)),
  (set .appName, "app_name", fun t => t.Writes (.text c.appName)),
  (set .secureTransport, "secure_transport", fun t => t.Writes (.bool c.secureTransport)),
  (set .debugging, "debugging", fun t => t.Writes (.bool c.debugging)),
  (table, "datasource", FeedSettings.Sets (fun p => set (.feed p)) c.feed),
  (set .endpoints, "endpoints", Spelling.WritesList EndpointOverride.Written c.endpoints)]

/-- The object sets these parts of the configuration and no others. The table of the settings may
be left out if none of them is set. -/
inductive Sets (set : Part → Bool) (c : AgentConfig) : Spelling → Prop
  | intro {t : Spelling} (table : Bool) (empty : table = false → ∀ p, set (.feed p) = false)
      (object : t.WritesObject names (chosen (entries set table c))) : Sets set c t

def only (set : Part → Bool) (c : AgentConfig) : AgentConfig where
  license := if set .license then c.license else ""
  namespaceName := if set .namespaceName then c.namespaceName else defaultNamespace
  deployEnv := if set .deployEnv then c.deployEnv else defaultDeployEnv
  appName := if set .appName then c.appName else ""
  secureTransport := if set .secureTransport then c.secureTransport else false
  debugging := if set .debugging then c.debugging else false
  feed := c.feed.only fun p => set (.feed p)
  endpoints := if set .endpoints then c.endpoints else []

theorem readsAs_only (set : Part → Bool) (c : AgentConfig) :
    ReadsAs (Sets set c) shape.read (only set c) := by
  rintro t ⟨table, empty, object⟩
  have feed : (if table then c.feed.only fun p => set (.feed p) else .standard) =
      c.feed.only fun p => set (.feed p) := by
    cases table with
    | false => exact (FeedSettings.only_eq_standard (empty rfl) _).symm
    | true => rfl
  have endpoints : ReadsAs (Spelling.WritesList EndpointOverride.Written c.endpoints)
      (Node.listOf EndpointOverride.shape.read) c.endpoints :=
    Spelling.WritesList.listOf fun e _ => EndpointOverride.readsAs_written e
  have supplies : Json.Supplies shape.fields (entries set table c) shape.blank
      { only set c with
        feed := if table then c.feed.only fun p => set (.feed p) else .standard } :=
    .optional (Value.readAs_text _) rfl <|
    .optional (Value.readAs_text _) rfl <|
    .optional (Value.readAs_text _) rfl <|
    .optional (Value.readAs_text _) rfl <|
    .optional (Value.readAs_bool _) rfl <|
    .optional (Value.readAs_bool _) rfl <|
    .optional (FeedSettings.readsAs_only _ _) rfl <|
    .optional endpoints rfl .nil
  rw [feed] at supplies
  exact Shape.readsAs_of_supplies separate rfl supplies t object

theorem exists_sets (set : Part → Bool) (c : AgentConfig) : ∃ t, Sets set c t := by
  have object := Spelling.WritesObject.exists (entries set true c) names <| by
    simp only [entries, List.forall_mem_cons, List.not_mem_nil, false_imp_iff, implies_true,
      and_true]
    exact ⟨Value.writable_text _, Value.writable_text _, Value.writable_text _,
      Value.writable_text _, Value.writable_bool _, Value.writable_bool _,
      FeedSettings.exists_sets _ _,
      Spelling.WritesList.exists EndpointOverride.exists_written c.endpoints⟩
  obtain ⟨t, object⟩ := object
  exact ⟨t, .intro true (by simp) object⟩

structure HasOnly (set : Part → Bool) (c d : AgentConfig) : Prop where
  own : ∀ p, set p = true → Part.Same d c p
  rest : ∀ p, set p = false → Part.Same d standard p

theorem hasOnly_only (set : Part → Bool) (c : AgentConfig) : HasOnly set c (only set c) where
  own p given := by
    cases p with
    | feed p => exact (FeedSettings.hasOnly_only _ _).own p given
    | _ => exact if_pos given
  rest p unset := by
    cases p with
    | feed p => exact (FeedSettings.hasOnly_only _ _).rest p unset
    | _ => exact if_neg (Bool.eq_false_iff.mp unset)

theorem only_eq_self {set : Part → Bool} (given : ∀ p, set p = true) (c : AgentConfig) :
    only set c = c :=
  eq_of_same fun p => (hasOnly_only set c).own p (given p)

namespace Part.Same

variable {b c d : AgentConfig} {p : Part}

theorem symm (h : Same c d p) : Same d c p := by
  cases p with
  | feed p => exact FeedSettings.Part.Same.symm h
  | _ => exact Eq.symm h

theorem trans (h : Same b c p) (h' : Same c d p) : Same b d p := by
  cases p with
  | feed p => exact FeedSettings.Part.Same.trans h h'
  | _ => exact Eq.trans h h'

theorem merge_of_unset (single : p ≠ .endpoints) (unset : Same d standard p)
    (base : AgentConfig) : Same (base.merge d) base p := by
  cases p with
  | endpoints => exact absurd rfl single
  | feed p => exact FeedSettings.Part.Same.merge_of_unset unset base.feed
  | secureTransport => exact (congrArg _ unset).trans (Bool.or_false _)
  | debugging => exact (congrArg _ unset).trans (Bool.or_false _)
  | _ => exact if_pos unset

theorem merge_of_set (single : p ≠ .endpoints) (given : ¬Same d standard p)
    (base : AgentConfig) : Same (base.merge d) d p := by
  have flag {b e : Bool} (given : ¬e = false) : (b || e) = e := by
    rw [(Bool.not_eq_false e).mp given, Bool.or_true]
  cases p with
  | endpoints => exact absurd rfl single
  | feed p => exact FeedSettings.Part.Same.merge_of_set given base.feed
  | secureTransport => exact flag given
  | debugging => exact flag given
  | _ => exact if_neg given

end Part.Same

structure Updates (set : Part → Bool) (c base merged : AgentConfig) : Prop where
  changed : ∀ p, p ≠ .endpoints → set p = true → ¬Part.Same c standard p → Part.Same merged c p
  kept : ∀ p, p ≠ .endpoints → set p = false ∨ Part.Same c standard p → Part.Same merged base p
  endpoints : merged.endpoints = base.endpoints ++ if set .endpoints then c.endpoints else []

theorem HasOnly.updates {set : Part → Bool} {c d : AgentConfig} (has : HasOnly set c d)
    (base : AgentConfig) : Updates set c base (base.merge d) where
  changed p single given differs := by
    have own := has.own p given
    have merged := Part.Same.merge_of_set single (fun unset => differs (own.symm.trans unset)) base
    exact merged.trans own
  kept p single unset := by
    refine Part.Same.merge_of_unset single ?_ base
    cases given : set p with
    | false => exact has.rest p given
    | true =>
      rcases unset with absent | unset
      · cases given.symm.trans absent
      · exact (has.own p given).trans unset
  endpoints := by
    refine congrArg (base.endpoints ++ ·) ?_
    cases given : set .endpoints with
    | false => exact has.rest .endpoints given
    | true => exact has.own .endpoints given

/-- A document that sets some parts of a configuration is read as these parts over the standard,
and merging it changes nothing else. Every part of every configuration can be set in this way. -/
theorem document_sets_its_parts :
    (∀ (set : Part → Bool) (c : AgentConfig) (p : Padded Spelling), Sets set c p.value →
      ∃ d, ofDocument p.document = .ok d ∧ HasOnly set c d ∧ ((∀ q, set q = true) → d = c) ∧
        ∀ base, Updates set c base (base.merge d)) ∧
    (∀ (set : Part → Bool) (c : AgentConfig), ∃ t, Sets set c t) ∧
    (∀ (set : FeedSettings.Part → Bool) (s : FeedSettings) (p : Padded Spelling),
      FeedSettings.Sets set s p.value →
      ∃ d, FeedSettings.ofDocument p.document = .ok d ∧ FeedSettings.HasOnly set s d ∧
        ((∀ q, set q = true) → d = s) ∧ ∀ base, FeedSettings.Updates set s base (base.merge d)) ∧
    ∀ (set : FeedSettings.Part → Bool) (s : FeedSettings), ∃ t, FeedSettings.Sets set s t := by
  refine ⟨fun set c p sets => ?_, exists_sets, fun set s p sets => ?_, FeedSettings.exists_sets⟩
  · have has := hasOnly_only set c
    refine ⟨only set c, ?_, has, fun given => only_eq_self given c, has.updates⟩
    rw [ofDocument, Shape.readDocument, Document.read_document]
    exact readsAs_only set c p.value sets
  · have has := FeedSettings.hasOnly_only set s
    refine ⟨s.only set, ?_, has, fun given => FeedSettings.only_eq_self given s, has.updates⟩
    rw [FeedSettings.ofDocument, Shape.readDocument, Document.read_document]
    exact FeedSettings.readsAs_only set s p.value sets

/-- A name, one of the settings and an endpoint without hosts, out of order and with a member that
is not known. The flag of the configuration is not set by the document. -/
theorem document_sets_its_parts_three :
    let endpoint : Spelling := .object [Member.plain "key" (.text (.ofString "test"))] .empty
    let settings : Spelling := .object
      [Member.plain "x" (.word .null), Member.plain "timeout_ms" (.number (.ofDigit 7))] .empty
    let p : Padded Spelling := .tight (.object
      [Member.plain "endpoints" (.list [.tight endpoint] .empty),
        Member.plain "datasource" settings, Member.plain "app_name" (.text (.ofString "shop"))]
      .empty)
    let base : AgentConfig :=
      { standard with deployEnv := "test", endpoints := [⟨"stage", "", ""⟩] }
    ∃ d, ofDocument p.document = .ok d ∧ d.appName = "shop" ∧ d.debugging = false ∧
      (base.merge d).feed.timeoutMs = 7 ∧ (base.merge d).deployEnv = "test" ∧
      (base.merge d).endpoints = [⟨"stage", "", ""⟩, ⟨"test", "", ""⟩] := by
  intro endpoint settings p base
  let c : AgentConfig := { standard with
    appName := "shop", debugging := true, feed := { FeedSettings.standard with timeoutMs := 7 }
    endpoints := [⟨"test", "", ""⟩] }
  let set : Part → Bool := fun q => q ∈ [Part.appName, .feed .timeoutMs, .endpoints]
  have written : EndpointOverride.Written ⟨"test", "", ""⟩ endpoint := by
    refine .intro false false (fun _ => rfl) (fun _ => rfl) (.intro (.refl _) ?_)
    exact .entry (Member.named_plain _ _) (.text (TextSpelling.spells_ofString _)) .nil
  have timeout : FeedSettings.Sets (fun q => set (.feed q)) c.feed settings := by
    refine .intro (.refl _) (.extra (Member.named_plain "x" _) (by decide) ?_)
    exact .entry (Member.named_plain _ _) (.integer ⟨rfl, rfl, rfl, rfl⟩) .nil
  have sets : Sets set c p.value := by
    refine .intro true (by simp) (.intro (List.reverse_perm _).symm ?_)
    exact .entry (Member.named_plain "app_name" _) (.text (TextSpelling.spells_ofString _))
      (.entry (Member.named_plain "datasource" _) timeout
        (.entry (Member.named_plain "endpoints" _) (.intro (.cons written .nil)) .nil))
  obtain ⟨d, read, has, -, updates⟩ := document_sets_its_parts.1 set c p sets
  refine ⟨d, read, has.own .appName rfl, has.rest .debugging rfl, ?_, ?_, (updates base).endpoints⟩
  · exact (updates base).changed (.feed .timeoutMs) nofun rfl (show ¬(7 : UInt64) = 3000 by decide)
  · exact (updates base).kept .deployEnv nofun (.inl rfl)

end AgentConfig
end RuleFeed
