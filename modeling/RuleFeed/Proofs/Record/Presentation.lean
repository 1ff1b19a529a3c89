import RuleFeed.Proofs.Json.Rewriting
import RuleFeed.Proofs.Record.Shape
import RuleFeed.Report.Document

/-!
How a published document may be written. Its envelope, its records and their override items are
objects in which the order of the members, members that are not known, and known members that are
`null` make no difference; the version and the data go by two names each.
-/
namespace RuleFeed

open Json

def OverrideItem.names : List (List String) := [["object"], ["count"], ["classType"]]

def Record.names : Category → List (List String)
  | .flow =>
    [["id"], ["resource"], ["limitApp"], ["grade"], ["count"], ["strategy"], ["controlBehavior"],
      ["refResource"], ["warmUpPeriodSec"], ["maxQueueingTimeMs"], ["clusterMode"]]
  | .system =>
    [["id"], ["resource"], ["highestSystemLoad"], ["highestCpuUsage"], ["qps"], ["avgRt"],
      ["maxThread"]]
  | .circuitBreaking =>
    [["id"], ["resource"], ["count"], ["grade"], ["timeWindow"], ["minRequestAmount"],
      ["slowRatioThreshold"], ["statIntervalMs"]]
  | .hotSpot =>
    [["id"], ["resource"], ["grade"], ["count"], ["paramIdx"], ["durationInSec"],
      ["controlBehavior"], ["maxQueueingTimeMs"], ["burstCount"], ["paramFlowItemList"],
      ["clusterMode"]]

def Record.nested : Category → List String
  | .hotSpot => ["paramFlowItemList"]
  | _ => []

def Envelope.names : List (List String) := [["Version", "version"], ["Data", "data"]]

def OverrideItem.Rewrites : Spelling → Spelling → Prop :=
  Spelling.RewritesObject names [] fun _ _ => False

def Record.Rewrites (c : Category) : Spelling → Spelling → Prop :=
  Spelling.RewritesObject (names c) (nested c) OverrideItem.Rewrites

def Envelope.Rewrites (c : Category) : Spelling → Spelling → Prop :=
  Spelling.RewritesObject names ["Data", "data"] (Record.Rewrites c)

theorem OverrideItem.respects :
    shape.Respects names [] fun _ _ => False where
  separate := separate
  forgiving := forgiving
  names := rfl
  nested_known := nofun
  inside := nofun

theorem Record.respects (c : Category) :
    (shape c).Respects (names c) (nested c) OverrideItem.Rewrites where
  separate := separate c
  forgiving := forgiving c
  names := by cases c <;> rfl
  nested_known := by cases c <;> decide
  inside := by
    intro key mem f known p q exchanged before after
    cases c with
    | hotSpot =>
      obtain rfl := List.mem_singleton.mp mem
      obtain rfl := Option.some.inj (HotSpotRecord.field?_items.symm.trans known)
      exact ((OverrideItem.respects.alike exchanged).list before after).map _
    | _ => cases mem

theorem Envelope.respects (c : Category) :
    (shape c).Respects names ["Data", "data"] (Record.Rewrites c) where
  separate := separate c
  forgiving := forgiving c
  names := rfl
  nested_known := by decide
  inside := by
    intro key mem f known p q exchanged before after
    obtain rfl := Option.some.inj ((field?_data c mem).symm.trans known)
    exact (((Record.respects c).alike exchanged).list before after).map _

namespace Presentation

def object (members : List Member) : Spelling := .object members .empty

def list (items : List Spelling) : Spelling := .list (items.map .tight) .empty

def value : Member := .plain "object" (.text (.ofString "a"))

def shortRecord : Spelling :=
  object [.plain "paramFlowItemList" (list [object [value]])]

def longRecord : Spelling :=
  object [.plain "id" (.word .null),
    .plain "paramFlowItemList"
      (list [object [.plain "count" (.word .null), value]])]

def short : Spelling := object [.plain "Data" (list [shortRecord])]

/-- The other name of the data, and a member that is not known. -/
def long : Spelling :=
  object [.plain "x" (list [list []]), .plain "data" (list [longRecord])]

theorem absent_singleton {name : String} {value : Spelling}
    {names : List String} (other : name ∉ names) :
    ∀ n ∈ [Member.plain name value], ∀ key ∈ names, ¬n.Named key := by
  intro n mem key mem_names named
  obtain rfl := List.mem_singleton.mp mem
  exact other ((Member.named_plain _ _).unique named ▸ mem_names)

theorem rewrites_single {known : List (List String)} {nested : List String}
    {item : Spelling → Spelling → Prop} {name : String}
    (mem : name ∈ nested) {p q : Spelling} (exchanged : item p q) :
    Json.Rewrites known nested item [.plain name (list [p])]
      [.plain name (list [q])] :=
  .inside mem (Member.named_plain _ _) (p := .tight p) (q := .tight q) exchanged rfl
    (show _ = Spelling.list ([] ++ _ :: []) .empty from rfl) rfl

theorem rewrites_longRecord : Record.Rewrites .hotSpot longRecord shortRecord := by
  have item : OverrideItem.Rewrites
      (object [.plain "count" (.word .null), value]) (object [value]) :=
    .intro (.null (show ["count"] ∈ OverrideItem.names by decide) List.mem_cons_self
      (Member.named_plain _ _) rfl (absent_singleton (by decide)))
  refine .intro (.trans (.null (show ["id"] ∈ Record.names .hotSpot by decide) List.mem_cons_self
    (Member.named_plain _ _) rfl (absent_singleton (by decide))) ?_)
  exact rewrites_single List.mem_cons_self item

theorem rewrites_long : Envelope.Rewrites .hotSpot long short := by
  have renamed : Json.Rewrites Envelope.names ["Data", "data"] (Record.Rewrites .hotSpot)
      [.plain "data" (list [longRecord])]
      [.plain "Data" (list [longRecord])] :=
    .rename (show ["Data", "data"] ∈ Envelope.names by decide) (by simp) (by simp)
      (Member.named_plain _ _) (Member.named_plain _ _) rfl
  have unknown : ∀ names ∈ Envelope.names, "x" ∉ names := by decide
  refine .intro (.trans (.unknown (Member.named_plain _ _) unknown) (.trans renamed ?_))
  exact rewrites_single List.mem_cons_self rewrites_longRecord

end Presentation

/-- Two writings of a document are accepted alike, with the same version and records. -/
theorem Envelope.decode_iff_of_rewrites (c : Category) (p q : Padded Spelling)
    (h : Rewrites c p.value q.value) (e : Envelope c) :
    decode c p.document = .ok e ↔ decode c q.document = .ok e := by
  have alike := (respects c).alike h e
  have read (p : Padded Spelling) :
      decode c p.document = .ok e ↔ (shape c).read p.value.node = .ok e := by
    rw [decode, ofDocument, Shape.readDocument, Document.read_document]
    cases (shape c).read p.value.node with
    | error f => exact ⟨nofun, nofun⟩
    | ok a => exact ⟨fun h => congrArg _ (Except.ok.inj h), fun h => congrArg _ (Except.ok.inj h)⟩
  rw [read, read, alike]

theorem Envelope.decode_iff_of_rewrites_hotSpot :
    Envelope.Rewrites .hotSpot Presentation.long Presentation.short ∧
      Envelope.decode .hotSpot (Padded.tight Presentation.long).document =
        .ok ⟨"", [{ HotSpotRecord.blank with items := [⟨"a", .zero, ""⟩] }]⟩ := by
  refine ⟨Presentation.rewrites_long, ?_⟩
  refine (decode_iff_of_rewrites .hotSpot _ (.tight Presentation.short)
    Presentation.rewrites_long _).mpr ?_
  rw [decode, ofDocument, Shape.readDocument, Document.read_document]
  rfl

end RuleFeed
