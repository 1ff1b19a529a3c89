import RuleFeed.Proofs.Json.Tree
import RuleFeed.Proofs.Json.Writable
import RuleFeed.Proofs.Rule.Shape
import RuleFeed.Proofs.Rule.Sound

/-!
Rules written and read back. A rule is regular if its number is the value of a literal and its
enumerations are normal. Reading brings regular rules only, and so does translating records; a
regular rule can be written, and every text that writes it is read as the rule itself. An
enumeration is written as its code, whose meaning is what reading finds again.
-/
namespace RuleFeed

open Json Value

def SystemMetric.IsNormal (m : SystemMetric) : Prop :=
  ∀ code, m = .other code → code ∉ [0, 1, 2, 3, 4]

theorem SystemMetric.isNormal_ofCode (code : UInt32) : (ofCode code).IsNormal := by
  intro other same
  grind [ofCode]

theorem FlowMetric.ofCode_code {m : FlowMetric} (normal : m.IsNormal) : ofCode m.code = m := by
  cases m <;> grind [ofCode, code, IsNormal]

theorem Relation.ofCode_code {r : Relation} (normal : r.IsNormal) : ofCode r.code = r := by
  cases r <;> grind [ofCode, code, IsNormal]

theorem FlowBehavior.ofCode_code {b : FlowBehavior} (normal : b.IsNormal) :
    ofCode b.code = b := by
  cases b <;> grind [ofCode, code, IsNormal]

theorem SystemMetric.ofCode_code {m : SystemMetric} (normal : m.IsNormal) :
    ofCode m.code = m := by
  cases m <;> grind [ofCode, code, IsNormal]

theorem HotSpotMetric.ofCode_code {m : HotSpotMetric} (normal : m.IsNormal) :
    ofCode m.code = m := by
  cases m <;> grind [ofCode, code, IsNormal]

structure FlowRule.Regular (r : FlowRule) : Prop where
  count : Legible r.count
  metric : r.metric.IsNormal
  relation : r.relation.IsNormal
  behavior : r.behavior.IsNormal

structure SystemRule.Regular (r : SystemRule) : Prop where
  metric : r.metric.IsNormal
  triggerCount : Legible r.triggerCount

structure HotSpotRule.Regular (r : HotSpotRule) : Prop where
  metric : r.metric.IsNormal
  threshold : Legible r.threshold

/-- Its number is the value of a literal and its enumerations are normal. -/
def Rule.Regular : {c : Category} → Rule c → Prop
  | .flow, r => FlowRule.Regular r
  | .system, r => SystemRule.Regular r
  | .circuitBreaking, r => Legible (BreakerRule.threshold r)
  | .hotSpot, r => HotSpotRule.Regular r

theorem Rule.regular_of_record {c : Category} {r : Record c} {rule : Rule c} (regular : r.Regular)
    (made : r.rule = .ok rule) : rule.Regular := by
  have sound := Record.sound_of_rule regular made
  have legible := Record.legible_of_rule regular made
  cases c with
  | flow => exact ⟨legible, sound.metric_normal, sound.relation_normal, sound.behavior_normal⟩
  | system =>
    refine ⟨fun code same => ?_, legible⟩
    have real := sound.metric_real
    rw [same] at real
    simp at real
  | circuitBreaking => exact legible
  | hotSpot => exact ⟨sound.metric_normal, legible⟩

section Keeps

variable {α : Type} {P : α → Prop} {name : String}

private theorem keeps_required_real {put : Binary64 → α → α}
    (kept : ∀ x a, Legible x → P a → P (put x a)) :
    (Json.Field.required name Node.real put).Keeps P :=
  Json.Field.keeps_required Legible (fun _ _ => Node.legible_of_real) kept

end Keeps

theorem Rule.keeps_regular (c : Category) : (Rule.shape c).Keeps Rule.Regular where
  blank := by
    cases c
    · exact ⟨.zero, fun _ => nofun, fun _ => nofun, fun _ => nofun⟩
    · exact ⟨fun _ => nofun, .zero⟩
    · exact Legible.zero
    · exact ⟨fun _ => nofun, .zero⟩
  fields := by
    cases c <;>
      simp only [shape, FlowRule.shape, SystemRule.shape, BreakerRule.shape, HotSpotRule.shape,
        List.forall_mem_cons, List.not_mem_nil, false_imp_iff, implies_true, and_true]
    case flow =>
      refine ⟨?_, ?_, ?_, ?_, ?_, ?_, ?_, ?_, ?_, ?_, ?_⟩
      case refine_5 => exact keeps_required_real fun _ _ legible h => { h with count := legible }
      case refine_4 =>
        exact Json.Field.keeps_required_of_put fun code _ h =>
          { h with metric := FlowMetric.isNormal_ofCode code }
      case refine_6 =>
        exact Json.Field.keeps_required_of_put fun code _ h =>
          { h with relation := Relation.isNormal_ofCode code }
      case refine_7 =>
        exact Json.Field.keeps_required_of_put fun code _ h =>
          { h with behavior := FlowBehavior.isNormal_ofCode code }
      all_goals exact Json.Field.keeps_required_of_put fun _ _ h => { h with }
    case system =>
      refine ⟨?_, ?_, ?_, ?_⟩
      case refine_2 =>
        exact Json.Field.keeps_required_of_put fun code _ h =>
          { h with metric := SystemMetric.isNormal_ofCode code }
      case refine_3 =>
        exact keeps_required_real fun _ _ legible h => { h with triggerCount := legible }
      all_goals exact Json.Field.keeps_required_of_put fun _ _ h => { h with }
    case circuitBreaking =>
      refine ⟨?_, ?_, ?_, ?_, ?_, ?_, ?_, ?_⟩
      case refine_8 => exact keeps_required_real fun _ _ legible _ => legible
      all_goals exact Json.Field.keeps_required_of_put fun _ _ h => h
    case hotSpot =>
      refine ⟨?_, ?_, ?_, ?_, ?_, ?_, ?_, ?_, ?_, ?_, ?_⟩
      case refine_3 =>
        exact Json.Field.keeps_required_of_put fun code _ h =>
          { h with metric := HotSpotMetric.isNormal_ofCode code }
      case refine_6 =>
        exact keeps_required_real fun _ _ legible h => { h with threshold := legible }
      all_goals exact Json.Field.keeps_required_of_put fun _ _ h => { h with }

theorem FlowRule.readAs_value {r : FlowRule} (regular : r.Regular) :
    r.value.ReadAs shape.read r := by
  obtain ⟨id, resource, limitOrigin, metric, count, relation, behavior, refResource,
    warmUpPeriodSec, maxQueueingTimeMs, clusterMode⟩ := r
  obtain ⟨metric, rfl⟩ : ∃ code, .ofCode code = metric := ⟨_, FlowMetric.ofCode_code regular.metric⟩
  obtain ⟨relation, rfl⟩ : ∃ code, .ofCode code = relation :=
    ⟨_, Relation.ofCode_code regular.relation⟩
  obtain ⟨behavior, rfl⟩ : ∃ code, .ofCode code = behavior :=
    ⟨_, FlowBehavior.ofCode_code regular.behavior⟩
  simp only [value, FlowMetric.code_ofCode, Relation.code_ofCode, FlowBehavior.code_ofCode]
  refine Shape.readAs_of_fills (Rule.separate .flow) ?_
  exact
    .required (readAs_uint64 _) <|
    .required (readAs_text _) <|
    .required (readAs_text _) <|
    .required (readAs_int32 _) <|
    .required (readAs_real _) <|
    .required (readAs_int32 _) <|
    .required (readAs_int32 _) <|
    .required (readAs_text _) <|
    .required (readAs_uint32 _) <|
    .required (readAs_uint32 _) <|
    .required (readAs_bool _) .nil

theorem FlowRule.writable_value {r : FlowRule} (legible : Legible r.count) :
    r.value.Writable := by
  have count := writable_real legible
  refine writable_object ?_
  simp only [List.forall_mem_cons, List.not_mem_nil, false_imp_iff, implies_true, and_true,
    writable_integer, writable_text, writable_bool, count]

theorem SystemRule.readAs_value {r : SystemRule} (regular : r.Regular) :
    r.value.ReadAs shape.read r := by
  obtain ⟨id, metric, triggerCount, strategy⟩ := r
  obtain ⟨metric, rfl⟩ : ∃ code, .ofCode code = metric :=
    ⟨_, SystemMetric.ofCode_code regular.metric⟩
  simp only [value, SystemMetric.code_ofCode]
  refine Shape.readAs_of_fills (Rule.separate .system) ?_
  exact
    .required (readAs_uint64 _) <|
    .required (readAs_uint32 _) <|
    .required (readAs_real _) <|
    .required (readAs_tag (AdaptiveStrategy.ofTag?_tag _)) .nil

theorem SystemRule.writable_value {r : SystemRule} (legible : Legible r.triggerCount) :
    r.value.Writable := by
  have count := writable_real legible
  refine writable_object ?_
  simp only [List.forall_mem_cons, List.not_mem_nil, false_imp_iff, implies_true, and_true,
    writable_integer, writable_text, count]

theorem BreakerRule.readAs_value (r : BreakerRule) : r.value.ReadAs shape.read r := by
  refine Shape.readAs_of_fills (Rule.separate .circuitBreaking) ?_
  exact
    .required (readAs_text _) <|
    .required (readAs_text _) <|
    .required (readAs_tag (BreakerStrategy.ofTag?_tag _)) <|
    .required (readAs_uint32 _) <|
    .required (readAs_uint64 _) <|
    .required (readAs_uint32 _) <|
    .required (readAs_uint64 _) <|
    .required (readAs_real _) .nil

theorem BreakerRule.writable_value {r : BreakerRule} (legible : Legible r.threshold) :
    r.value.Writable := by
  have threshold := writable_real legible
  refine writable_object ?_
  simp only [List.forall_mem_cons, List.not_mem_nil, false_imp_iff, implies_true, and_true,
    writable_integer, writable_text, threshold]

theorem Override.readAs_toValue (o : Override) : o.toValue.ReadAs shape.read o := by
  refine Shape.readAs_of_fills Override.separate ?_
  exact
    .required (readAs_tag (ParamKind.ofTag?_tag _)) <|
    .required (readAs_text _) <|
    .required (readAs_int64 _) .nil

theorem Override.writable_toValue (o : Override) : o.toValue.Writable := by
  refine writable_object ?_
  simp only [List.forall_mem_cons, List.not_mem_nil, false_imp_iff, implies_true, and_true,
    writable_integer, writable_text]

theorem HotSpotRule.readAs_value {r : HotSpotRule} (regular : r.Regular) :
    r.value.ReadAs shape.read r := by
  obtain ⟨id, resource, metric, behavior, paramIndex, threshold, maxQueueingTimeMs, burstCount,
    durationSec, paramsMaxCapacity, overrides⟩ := r
  obtain ⟨metric, rfl⟩ : ∃ code, .ofCode code = metric :=
    ⟨_, HotSpotMetric.ofCode_code regular.metric⟩
  simp only [value, HotSpotMetric.code_ofCode]
  refine Shape.readAs_of_fills (Rule.separate .hotSpot) ?_
  exact
    .required (readAs_text _) <|
    .required (readAs_text _) <|
    .required (readAs_int32 _) <|
    .required (readAs_tag (HotSpotBehavior.ofTag?_tag _)) <|
    .required (readAs_int32 _) <|
    .required (readAs_real _) <|
    .required (readAs_int64 _) <|
    .required (readAs_int64 _) <|
    .required (readAs_int64 _) <|
    .required (readAs_int64 _) <|
    .required (readAs_list fun o _ => Override.readAs_toValue o) .nil

theorem HotSpotRule.writable_value {r : HotSpotRule} (legible : Legible r.threshold) :
    r.value.Writable := by
  have threshold := writable_real legible
  have overrides : (list (r.overrides.map Override.toValue)).Writable := by
    refine writable_list fun v mem => ?_
    obtain ⟨o, -, rfl⟩ := List.mem_map.mp mem
    exact o.writable_toValue
  refine writable_object ?_
  simp only [List.forall_mem_cons, List.not_mem_nil, false_imp_iff, implies_true, and_true,
    writable_integer, writable_text, threshold, overrides]

namespace Rule

variable {c : Category} {r : Rule c}

theorem readAs_value (regular : r.Regular) : (value r).ReadAs (shape c).read r :=
  match c, r, regular with
  | .flow, _, regular => FlowRule.readAs_value regular
  | .system, _, regular => SystemRule.readAs_value regular
  | .circuitBreaking, r, _ => BreakerRule.readAs_value r
  | .hotSpot, _, regular => HotSpotRule.readAs_value regular

theorem writable_value (regular : r.Regular) : (value r).Writable :=
  match c, r, regular with
  | .flow, _, regular => FlowRule.writable_value regular.count
  | .system, _, regular => SystemRule.writable_value regular.triggerCount
  | .circuitBreaking, _, regular => BreakerRule.writable_value regular
  | .hotSpot, _, regular => HotSpotRule.writable_value regular.threshold

theorem ofDocument_of_writes (regular : r.Regular) {p : Padded Spelling}
    (written : p.value.Writes (value r)) : ofDocument c p.document = .ok r := by
  rw [ofDocument, Shape.readDocument, Document.read_document]
  exact readAs_value regular p.value written

theorem exists_writes (regular : r.Regular) :
    ∃ p : Padded Spelling, p.value.Writes (value r) := by
  obtain ⟨s, written⟩ := writable_value regular
  exact ⟨.tight s, written⟩

/-- The rule comes out of a document, as a rule or in a report on records. -/
inductive Obtained (r : Rule c) : Prop
  | read {text : String} (read : ofDocument c text = .ok r)
  | accepted {payload : String} {report : Report c}
      (decoded : Report.ofDocument c payload = .ok report) (mem : r ∈ report.accepted)

/-- The rules that come out of documents are the regular ones. -/
theorem obtained_iff_regular : Obtained r ↔ r.Regular := by
  constructor
  · intro obtained
    cases obtained with
    | read read => exact (keeps_regular c).readDocument read
    | accepted decoded mem =>
      obtain ⟨record, regular, made⟩ := Report.exists_record decoded r mem
      exact regular_of_record regular made
  · intro regular
    obtain ⟨p, written⟩ := exists_writes regular
    exact .read (ofDocument_of_writes regular written)

/-- Every rule that comes out of a document has texts that write it, and is read back from each of
them; so is a rule with any code in place of any of its enumerations. -/
theorem read_back_of_obtained :
    (∀ (c : Category) (r : Rule c), Obtained r →
      (∃ p : Padded Spelling, p.value.Writes (value r)) ∧
      ∀ p : Padded Spelling, p.value.Writes (value r) → ofDocument c p.document = .ok r) ∧
    (∀ (r coded : Rule .flow) (metric relation behavior : Int32), Obtained r →
      coded = { r with
        metric := .ofCode metric, relation := .ofCode relation, behavior := .ofCode behavior } →
      coded.metric.code = metric ∧ coded.relation.code = relation ∧
        coded.behavior.code = behavior ∧
        ∀ p : Padded Spelling, p.value.Writes (value coded) →
          ofDocument .flow p.document = .ok coded) ∧
    (∀ (r coded : Rule .system) (metric : UInt32), Obtained r →
      coded = { r with metric := .ofCode metric } →
      coded.metric.code = metric ∧
        ∀ p : Padded Spelling, p.value.Writes (value coded) →
          ofDocument .system p.document = .ok coded) ∧
    ∀ (r coded : Rule .hotSpot) (metric : Int32), Obtained r →
      coded = { r with metric := .ofCode metric } →
      coded.metric.code = metric ∧
        ∀ p : Padded Spelling, p.value.Writes (value coded) →
          ofDocument .hotSpot p.document = .ok coded := by
  refine ⟨?_, ?_, ?_, ?_⟩
  · intro c r obtained
    have regular := obtained_iff_regular.mp obtained
    exact ⟨exists_writes regular, fun p => ofDocument_of_writes regular⟩
  · rintro r coded metric relation behavior obtained rfl
    have regular : FlowRule.Regular r := obtained_iff_regular.mp obtained
    refine ⟨FlowMetric.code_ofCode _, Relation.code_ofCode _, FlowBehavior.code_ofCode _,
      fun p => ofDocument_of_writes ?_⟩
    exact ⟨regular.count, FlowMetric.isNormal_ofCode _, Relation.isNormal_ofCode _,
      FlowBehavior.isNormal_ofCode _⟩
  · rintro r coded metric obtained rfl
    have regular : SystemRule.Regular r := obtained_iff_regular.mp obtained
    refine ⟨SystemMetric.code_ofCode _, fun p => ofDocument_of_writes ?_⟩
    exact ⟨SystemMetric.isNormal_ofCode _, regular.triggerCount⟩
  · rintro r coded metric obtained rfl
    have regular : HotSpotRule.Regular r := obtained_iff_regular.mp obtained
    refine ⟨HotSpotMetric.code_ofCode _, fun p => ofDocument_of_writes ?_⟩
    exact ⟨HotSpotMetric.isNormal_ofCode _, regular.threshold⟩

theorem read_back_of_obtained_unknown_code :
    Obtained (c := .system) ⟨7, .other 9, .zero, .bbr⟩ ∧
    ofDocument .system ("\x7b\"metric_type\":9,\"id\":7,\"trigger_count\":0.0," ++
      "\"strategy\":\"\\u0062br\"\x7d") = .ok ⟨7, .other 9, .zero, .bbr⟩ := by
  have obtained : Obtained (c := .system) ⟨7, .other 9, .zero, .bbr⟩ :=
    .read ((toOption_eq_some_iff (SystemRule.shape.readDocument "[7, 9, 0, \"bbr\"]") _).mp
      (by decide +kernel))
  let bbr : TextSpelling :=
    ⟨[.unit (.ofNat 0x62), .bare 'b' (by decide), .bare 'r' (by decide)]⟩
  have tag : bbr.Spells "bbr" :=
    ⟨[.unit 'b' _ rfl, .bare 'b' (by decide), .bare 'r' (by decide)], rfl, by decide⟩
  let zero : NumberSpelling := { NumberSpelling.ofDigit 0 with fraction := some (.ofDigit 0) }
  have count : zero.Reads .zero := by decide +kernel
  refine ⟨obtained, (read_back_of_obtained.1 .system _ obtained).2 (.tight (.object
    [Member.plain "metric_type" (.number (.ofDigit 9)), Member.plain "id" (.number (.ofDigit 7)),
      Member.plain "trigger_count" (.number zero), Member.plain "strategy" (.text bbr)]
    .empty)) ?_⟩
  exact .object (.swap _ _ _)
    (.cons (Member.named_plain _ _) (.integer ⟨rfl, rfl, rfl, rfl⟩)
    (.cons (Member.named_plain _ _) (.integer ⟨rfl, rfl, rfl, rfl⟩)
    (.cons (Member.named_plain _ _) (.real count)
    (.cons (Member.named_plain _ _) (.text tag) .nil))))

end Rule
end RuleFeed
