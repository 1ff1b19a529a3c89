import Mathlib.Data.List.Forall2
import RuleFeed.Proofs.Binary64.Rational
import RuleFeed.Proofs.Text.Decimal
import RuleFeed.Record

/-!
What a hot-spot record says. Each of its items that has a value becomes an override of its own, in
order, and no item says anything about another one. The kind of an override is named by six words
in any mixture of ASCII cases; whatever else stands there is a text.
-/
namespace RuleFeed

/-- The same character, or a letter from A to Z and the same one in the other case. -/
def SameLetter (c d : Char) : Prop :=
  c = d ∨ (('A' ≤ c ∧ c ≤ 'Z') ∧ d.toNat = c.toNat + 32) ∨
    (('A' ≤ d ∧ d ≤ 'Z') ∧ c.toNat = d.toNat + 32)

def SameWord (s t : String) : Prop := List.Forall₂ SameLetter s.toList t.toList

theorem upper_iff (c : Char) : ('A' ≤ c ∧ c ≤ 'Z') ↔ 65 ≤ c.toNat ∧ c.toNat ≤ 90 := Iff.rfl

theorem toNat_toLower (c : Char) :
    c.toLower.toNat = if 'A' ≤ c ∧ c ≤ 'Z' then c.toNat + 32 else c.toNat := by
  unfold Char.toLower
  split
  case isTrue upper =>
    have bound := (upper_iff c).mp upper
    have small : c.toNat + 32 < 2 ^ 32 := by omega
    rw [if_pos ((upper_iff c).mpr bound)]
    exact (UInt32.toNat_add _ _).trans (Nat.mod_eq_of_lt small)
  case isFalse other =>
    have outside : ¬('A' ≤ c ∧ c ≤ 'Z') := other
    rw [if_neg outside]

theorem toLower_eq_iff (c d : Char) : c.toLower = d.toLower ↔ SameLetter c d := by
  rw [← Char.toNat_inj, toNat_toLower, toNat_toLower, SameLetter, ← Char.toNat_inj]
  simp only [upper_iff]
  split <;> split <;> omega

theorem lowerAscii_eq_iff (s t : String) : lowerAscii s = lowerAscii t ↔ SameWord s t := by
  rw [lowerAscii, lowerAscii, String.ofList_inj, ← List.forall₂_eq_eq_eq,
    List.forall₂_map_left_iff, List.forall₂_map_right_iff]
  simp only [toLower_eq_iff]
  rfl

namespace ParamKind

def words : List String := ["int", "long", "bool", "boolean", "double", "float"]

/-- The tag names the kind; a text is what no word names. -/
def Named (tag : String) : ParamKind → Prop
  | .int => SameWord tag "int" ∨ SameWord tag "long"
  | .bool => SameWord tag "bool" ∨ SameWord tag "boolean"
  | .float64 => SameWord tag "double" ∨ SameWord tag "float"
  | .string => ∀ word ∈ words, ¬SameWord tag word

theorem sameWord_iff {word : String} (mem : word ∈ words) (tag : String) :
    SameWord tag word ↔ lowerAscii tag = word := by
  have lower : ∀ word ∈ words, lowerAscii word = word := by decide
  rw [← lowerAscii_eq_iff, lower word mem]

theorem ofTypeTag_eq_iff (tag : String) (kind : ParamKind) :
    ofTypeTag tag = kind ↔ kind.Named tag := by
  have none : (∀ word ∈ words, ¬SameWord tag word) ↔ lowerAscii tag ∉ words := by
    constructor
    · exact fun none mem => none _ mem ((sameWord_iff mem tag).mpr rfl)
    · exact fun none word mem same => none ((sameWord_iff mem tag).mp same ▸ mem)
  cases kind <;> simp (disch := decide) only [Named, none, sameWord_iff]
  all_goals
    unfold ofTypeTag
    generalize lowerAscii tag = lower
    grind [words]

end ParamKind

attribute [ext] Override HotSpotRule

namespace OverrideItem

structure Makes (i : OverrideItem) (o : Override) : Prop where
  kind : ∀ kind, o.kind = kind ↔ kind.Named i.paramType
  value : o.value = i.value
  threshold : o.threshold.toInt = i.threshold.saturated (-2 ^ 63) (2 ^ 63 - 1)

variable {i : OverrideItem} {o : Override}

theorem override?_of_empty (empty : i.value = "") : i.override? = none := if_pos empty

theorem override?_eq_some_iff (present : i.value ≠ "") : i.override? = some o ↔ i.Makes o := by
  rw [override?, if_neg present, Option.some.injEq]
  constructor
  · rintro rfl
    exact ⟨ParamKind.ofTypeTag_eq_iff i.paramType, rfl, i.threshold.toInt_toInt64⟩
  · intro makes
    have kind : ParamKind.ofTypeTag i.paramType = o.kind :=
      (ParamKind.ofTypeTag_eq_iff _ _).mpr ((makes.kind _).mp rfl)
    have threshold : i.threshold.toInt64 = o.threshold := by
      rw [← Int64.toInt_inj, makes.threshold, Binary64.toInt_toInt64]
    exact Override.ext kind makes.value.symm threshold

/-- The overrides of items are those of the items with a value, one each and in order. -/
theorem filterMap_override?_eq_iff (items : List OverrideItem) (overrides : List Override) :
    items.filterMap override? = overrides ↔
      List.Forall₂ Makes (items.filter fun i => i.value ≠ "") overrides := by
  induction items generalizing overrides with
  | nil => cases overrides <;> simp
  | cons i items ih =>
    by_cases empty : i.value = ""
    · rw [List.filterMap_cons_none (override?_of_empty empty), ih, List.filter_cons_of_neg]
      simpa using empty
    · obtain ⟨o, made⟩ : ∃ o, i.override? = some o := ⟨_, if_neg empty⟩
      rw [List.filterMap_cons_some made, List.filter_cons_of_pos (by simpa using empty),
        List.forall₂_cons_left_iff]
      simp only [← override?_eq_some_iff empty, made, ← ih, Option.some.injEq]
      simp [eq_comm]

end OverrideItem

theorem HotSpotBehavior.ofCode_eq_throttling_iff {code : UInt32} :
    ofCode code = .throttling ↔ code = 2 := by
  unfold ofCode
  split <;> simp [*]

namespace HotSpotRecord

structure Makes (r : HotSpotRecord) (made : HotSpotRule) : Prop where
  id : Decimal.Canonical made.id r.id.toNat
  resource : made.resource = r.resource
  metric : made.metric = r.metric
  behavior : made.behavior = .throttling ↔ r.behaviorCode = 2
  paramIndex : made.paramIndex = r.paramIndex
  threshold : made.threshold = r.threshold
  maxQueueingTime : made.maxQueueingTimeMs = r.maxQueueingTimeMs
  burstCount : made.burstCount = r.burstCount
  duration : made.durationSec = r.durationSec
  capacity : made.paramsMaxCapacity = 500
  overrides : List.Forall₂ OverrideItem.Makes (r.items.filter fun i => i.value ≠ "") made.overrides

theorem makes_iff {r : HotSpotRecord} {made : HotSpotRule} : r.Makes made ↔ made = r.rule := by
  constructor
  · intro h
    have behavior : made.behavior = .ofCode r.behaviorCode := by
      have same := h.behavior.trans HotSpotBehavior.ofCode_eq_throttling_iff.symm
      cases code : HotSpotBehavior.ofCode r.behaviorCode <;> cases behavior : made.behavior <;>
        simp [code, behavior] at same ⊢
    exact HotSpotRule.ext (Decimal.canonical_iff.mp h.id) h.resource h.metric behavior
      h.paramIndex h.threshold h.maxQueueingTime h.burstCount h.duration h.capacity
      ((OverrideItem.filterMap_override?_eq_iff _ _).mpr h.overrides).symm
  · rintro rfl
    exact ⟨Decimal.canonical_write _, rfl, rfl, HotSpotBehavior.ofCode_eq_throttling_iff, rfl, rfl,
      rfl, rfl, rfl, rfl, (OverrideItem.filterMap_override?_eq_iff _ _).mp rfl⟩

/-- A record is never refused, and what its rule is goes item by item. -/
theorem rule_of_items (r : HotSpotRecord) :
    (∃ made, Record.rule (c := .hotSpot) r = .ok made) ∧
    (∀ made, Record.rule (c := .hotSpot) r = .ok made ↔ r.Makes made) ∧
    (∀ clusterMode, Record.rule (c := .hotSpot) { r with clusterMode := clusterMode } =
      Record.rule (c := .hotSpot) r) ∧
    ∀ front back, (rule { r with items := front ++ back }).overrides =
      (rule { r with items := front }).overrides ++ (rule { r with items := back }).overrides := by
  refine ⟨⟨r.rule, rfl⟩, fun made => ?_, fun _ => rfl, fun front back => List.filterMap_append⟩
  rw [makes_iff, Record.rule, Except.ok.injEq, eq_comm]

/-- A tag in mixed case, an item without a value, and two tags that only look like a word. -/
example :
    let items : List OverrideItem := [⟨"7", .ofBits 0xc00599999999999a, "LonG"⟩, ⟨"", .zero, "int"⟩,
      ⟨" ", .ofBits 0x7ff8000000000000, "ınt"⟩, ⟨"7", .infinity false, "int "⟩]
    (rule { blank with items := items }).overrides =
      [⟨.int, "7", -2⟩, ⟨.string, " ", 0⟩, ⟨.string, "7", 9223372036854775807⟩] := by
  decide +kernel

end HotSpotRecord
end RuleFeed
