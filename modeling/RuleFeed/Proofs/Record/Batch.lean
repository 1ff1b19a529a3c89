import RuleFeed.Proofs.Json.Glyph
import RuleFeed.Proofs.Json.Tree
import RuleFeed.Proofs.Record.Shape
import RuleFeed.Report.Document

/-!
Documents as batches of records. A document is decoded if each of its records is decoded in a
document of its own; its report is then the reports on the single records, one after the other,
each at the position of its record. The records may be any JSON values, and the document may also
have a version.
-/
namespace RuleFeed

open Json

/-- The text is one JSON value, with white space around it or not. -/
def Json.Complete (text : String) : Prop := ∃ p : Padded Spelling, p.document = text

def batch (records : List String) : String :=
  "\x7b\"Data\":[" ++ ",".intercalate records ++ "]\x7d"

def batchAfterVersion (version : String) (records : List String) : String :=
  "\x7b\"Version\":" ++ version ++ ",\"Data\":[" ++ ",".intercalate records ++ "]\x7d"

def batchBeforeVersion (version : String) (records : List String) : String :=
  "\x7b\"Data\":[" ++ ",".intercalate records ++ "],\"Version\":" ++ version ++ "\x7d"

namespace Report

variable {c : Category}

def shift (position : Nat) (r : Report c) : Report c :=
  { r with dropped := r.dropped.map fun d => { d with index := position + d.index } }

/-- Reports on one record each as a report on all, the first of which has position `index`. -/
def concatFrom (index : Nat) (reports : List (Report c)) : Report c where
  accepted := reports.flatMap accepted
  dropped := (reports.zipIdx index).flatMap fun r => (r.1.shift r.2).dropped

def concat (reports : List (Report c)) : Report c := concatFrom 0 reports

theorem concatFrom_ofRecords (index : Nat) (records : List (Record c)) :
    concatFrom index (records.map fun r => ofRecords [r]) = ofRecordsFrom index records := by
  induction records generalizing index with
  | nil => rfl
  | cons r records ih =>
    rw [ofRecordsFrom, ← ih]
    cases outcome : r.rule with
    | ok rule =>
      simp only [concatFrom, List.map_cons, List.flatMap_cons, List.zipIdx_cons, ofRecords,
        ofRecordsFrom, outcome, shift, accept, empty, List.singleton_append, List.map_nil,
        List.nil_append]
    | error reason =>
      simp only [concatFrom, List.map_cons, List.flatMap_cons, List.zipIdx_cons, ofRecords,
        ofRecordsFrom, outcome, shift, drop, empty, List.singleton_append, List.map_nil,
        List.nil_append, Nat.add_zero]

end Report

namespace Batch

def dataMember (items : List (Padded Spelling)) : Member :=
  Member.plain "Data" (.list items .empty)

def versionMember (version : TextSpelling) : Member :=
  Member.plain "Version" (.text version)

theorem document_dataMember (items : List (Padded Spelling)) :
    (dataMember items).document =
      "\"Data\":[" ++ ",".intercalate (items.map Padded.document) ++ "]" := by
  have name : (TextSpelling.ofString "Data").chars = ['"', 'D', 'a', 't', 'a', '"'] := rfl
  rw [← String.toList_inj, Member.document, String.toList_ofList, String.toList_append,
    String.toList_append, ← Spelling.itemChars_eq_intercalate]
  simp [dataMember, Member.plain, Padded.tight, Gap.empty, Padded.chars, Spelling.chars, name]

theorem document_versionMember (version : TextSpelling) :
    (versionMember version).document = "\"Version\":" ++ String.ofList version.chars := by
  have name : (TextSpelling.ofString "Version").chars =
    ['"', 'V', 'e', 'r', 's', 'i', 'o', 'n', '"'] := rfl
  rw [← String.toList_inj, Member.document, String.toList_ofList, String.toList_append,
    String.toList_ofList]
  simp [versionMember, Member.plain, Padded.tight, Gap.empty, Padded.chars, Spelling.chars, name]

theorem batch_document (items : List (Padded Spelling)) :
    (Padded.tight (Spelling.object [dataMember items] .empty)).document =
      batch (items.map Padded.document) := by
  simp [Padded.document_object, document_dataMember, batch, ← String.toList_inj]

theorem batchBeforeVersion_document (items : List (Padded Spelling)) (version : TextSpelling) :
    (Padded.tight (Spelling.object [dataMember items, versionMember version] .empty)).document =
      batchBeforeVersion (String.ofList version.chars) (items.map Padded.document) := by
  simp [Padded.document_object, document_dataMember, document_versionMember, batchBeforeVersion,
    ← String.toList_inj]

theorem batchAfterVersion_document (items : List (Padded Spelling)) (version : TextSpelling) :
    (Padded.tight (Spelling.object [versionMember version, dataMember items] .empty)).document =
      batchAfterVersion (String.ofList version.chars) (items.map Padded.document) := by
  simp [Padded.document_object, document_dataMember, document_versionMember, batchAfterVersion,
    ← String.toList_inj]

def readRecords (c : Category) (items : List (Padded Spelling)) : Reading (List (Record c)) :=
  Node.listItems (Record.shape c).read (items.map fun item => item.value.node)

theorem readRecords_eq_ok_iff {c : Category} {items : List (Padded Spelling)}
    {records : List (Record c)} :
    readRecords c items = .ok records ↔
      (items.map fun item => (Record.shape c).read item.value.node) = records.map .ok := by
  rw [readRecords, Node.listItems_eq_ok_iff, List.map_map]
  rfl

theorem readMember_data (c : Category) (items : List (Padded Spelling))
    (p : Progress (Envelope c)) (first : "Data" ∉ p.seen) :
    (Envelope.shape c).readMember p (dataMember items).node.1 (dataMember items).node.2 =
      (readRecords c items).map
        fun records => ⟨{ p.value with records := records }, "Data" :: p.seen⟩ := by
  have named : (dataMember items).node.1.name = .ok "Data" :=
    (Member.name_node_eq_ok_iff _ _).mpr (Member.named_plain _ _)
  have value : (dataMember items).node.2 = .list (Spelling.itemNodes items) .complete := rfl
  rw [Shape.readMember_of_known named (Envelope.field?_data c (by simp)) first, value,
    Spelling.itemNodes_eq_map, Envelope.update_dataField, ← readRecords]
  cases readRecords c items <;> rfl

theorem readMember_version (c : Category) (version : TextSpelling) {s : String}
    (spells : version.Spells s) (p : Progress (Envelope c)) (first : "Version" ∉ p.seen) :
    (Envelope.shape c).readMember p (versionMember version).node.1 (versionMember version).node.2 =
      .ok ⟨{ p.value with version := s }, "Version" :: p.seen⟩ := by
  have named : (versionMember version).node.1.name = .ok "Version" :=
    (Member.name_node_eq_ok_iff _ _).mpr (Member.named_plain _ _)
  have value : (versionMember version).node.2 = .text version.text := rfl
  rw [Shape.readMember_of_known named (Envelope.field?_version c) first, value,
    Envelope.update_versionField, (version.decode_eq_ok_iff s).mpr spells]
  rfl

theorem ofDocument_object (c : Category) (members : List Member) :
    Envelope.ofDocument c (Padded.tight (Spelling.object members .empty)).document =
      ((Envelope.shape c).readMembers ⟨Envelope.blank, []⟩ (members.map Member.node)).map
        Progress.value := by
  rw [Envelope.ofDocument, Shape.readDocument, Document.read_document, Padded.tight,
    Spelling.node, Spelling.memberNodes_eq_map]
  exact (Envelope.forgiving c).readObject_eq _

variable (c : Category) (items : List (Padded Spelling))

theorem ofDocument_batch :
    Envelope.ofDocument c (batch (items.map Padded.document)) =
      (readRecords c items).map fun records => ⟨"", records⟩ := by
  have data := readMember_data c items ⟨Envelope.blank, []⟩ nofun
  rw [← batch_document, ofDocument_object, List.map_cons, Shape.readMembers, data]
  cases readRecords c items <;> rfl

variable (version : TextSpelling) {s : String} (spells : version.Spells s)

include spells

theorem ofDocument_batchBeforeVersion :
    Envelope.ofDocument c
        (batchBeforeVersion (String.ofList version.chars) (items.map Padded.document)) =
      (readRecords c items).map fun records => ⟨s, records⟩ := by
  have data := readMember_data c items ⟨Envelope.blank, []⟩ nofun
  rw [← batchBeforeVersion_document, ofDocument_object, List.map_cons, Shape.readMembers, data]
  cases readRecords c items with
  | error f => rfl
  | ok records =>
    have last := readMember_version c version spells ⟨⟨"", records⟩, ["Data"]⟩ (by simp)
    rw [List.map_cons, Except.map]
    simp only [bind, Except.bind, Shape.readMembers, Envelope.blank, last]
    rfl

theorem ofDocument_batchAfterVersion :
    Envelope.ofDocument c
        (batchAfterVersion (String.ofList version.chars) (items.map Padded.document)) =
      (readRecords c items).map fun records => ⟨s, records⟩ := by
  have first := readMember_version c version spells ⟨Envelope.blank, []⟩ nofun
  have data := readMember_data c items ⟨⟨s, []⟩, ["Version"]⟩ (by simp)
  rw [← batchAfterVersion_document, ofDocument_object, List.map_cons, Shape.readMembers, first]
  simp only [bind, Except.bind, List.map_cons, Shape.readMembers, Envelope.blank, data]
  cases readRecords c items <;> rfl

end Batch

theorem Json.exists_items {texts : List String} (complete : ∀ text ∈ texts, Json.Complete text) :
    ∃ items : List (Padded Spelling), items.map Padded.document = texts := by
  induction texts with
  | nil => exact ⟨[], rfl⟩
  | cons text texts ih =>
    obtain ⟨item, rfl⟩ := complete text List.mem_cons_self
    obtain ⟨items, rfl⟩ := ih fun text mem => complete text (List.mem_cons_of_mem _ mem)
    exact ⟨item :: items, rfl⟩

section Outcomes

variable {α β γ ε ε' : Type} {f : α → Except ε β} {g : α → Except ε' γ} {h : β → γ}

theorem exists_map_eq_ok_iff (l : List α) :
    (∃ bs : List β, l.map f = bs.map .ok) ↔ ∀ a ∈ l, ∃ b, f a = .ok b := by
  constructor
  · rintro ⟨bs, each⟩ a mem
    have found : f a ∈ bs.map .ok := each ▸ List.mem_map.mpr ⟨a, mem, rfl⟩
    obtain ⟨b, -, made⟩ := List.mem_map.mp found
    exact ⟨b, made.symm⟩
  · intro each
    induction l with
    | nil => exact ⟨[], rfl⟩
    | cons a l ih =>
      obtain ⟨b, made⟩ := each a List.mem_cons_self
      obtain ⟨bs, rest⟩ := ih fun a mem => each a (List.mem_cons_of_mem _ mem)
      exact ⟨b :: bs, by rw [List.map_cons, List.map_cons, made, rest]⟩

theorem map_eq_ok_iff_of_translated (each : ∀ a c, g a = .ok c ↔ ∃ b, f a = .ok b ∧ c = h b)
    (l : List α) (cs : List γ) :
    l.map g = cs.map .ok ↔ ∃ bs : List β, l.map f = bs.map .ok ∧ cs = bs.map h := by
  induction l generalizing cs with
  | nil => cases cs <;> simp
  | cons a l ih =>
    cases cs with
    | nil => simp
    | cons c cs =>
      rw [List.map_cons, List.map_cons, List.cons.injEq, each, ih]
      constructor
      · rintro ⟨⟨b, made, rfl⟩, bs, rest, rfl⟩
        exact ⟨b :: bs, by rw [List.map_cons, List.map_cons, made, rest], rfl⟩
      · rintro ⟨bs, made, whole⟩
        cases bs with
        | nil => cases whole
        | cons b bs =>
          obtain ⟨first, rest⟩ := List.cons.inj made
          obtain ⟨rfl, rfl⟩ := List.cons.inj whole
          exact ⟨⟨b, first, rfl⟩, bs, rest, rfl⟩

end Outcomes

namespace Report

variable {c : Category}

theorem exists_ofDocument_eq_error {payload : String}
    (refused : ¬∃ report, ofDocument c payload = .ok report) :
    ∃ fault, ofDocument c payload = .error ⟨c, fault⟩ := by
  cases read : Envelope.ofDocument c payload with
  | error fault => exact ⟨fault, ofDocument_of_error read⟩
  | ok e => exact absurd ⟨_, ofDocument_eq_ok_iff.mpr ⟨e, read, rfl⟩⟩ refused

/-- The report is on the records alone, whatever the version. -/
theorem ofDocument_of_records {payload version : String} {items : List (Padded Spelling)}
    (read : Envelope.ofDocument c payload =
      (Batch.readRecords c items).map fun records => ⟨version, records⟩) :
    ofDocument c payload =
      ((Batch.readRecords c items).mapError (DecodeError.mk c)).map ofRecords := by
  rw [ofDocument, Envelope.decode, read]
  cases Batch.readRecords c items <;> rfl

theorem ofDocument_batch_eq_ok_iff (items : List (Padded Spelling)) (report : Report c) :
    ofDocument c (batch (items.map Padded.document)) = .ok report ↔
      ∃ records : List (Record c),
        (items.map fun item => (Record.shape c).read item.value.node) = records.map .ok ∧
          report = ofRecords records := by
  rw [ofDocument_of_records (Batch.ofDocument_batch c items)]
  simp only [← Batch.readRecords_eq_ok_iff]
  cases Batch.readRecords c items with
  | error f => exact ⟨nofun, nofun⟩
  | ok records =>
    constructor
    · intro accepted
      exact ⟨records, rfl, (Except.ok.inj accepted).symm⟩
    · rintro ⟨_, same, rfl⟩
      rw [Except.ok.inj same]
      rfl

theorem ofDocument_batch_one_eq_ok_iff (item : Padded Spelling) (report : Report c) :
    ofDocument c (batch [item.document]) = .ok report ↔
      ∃ r, (Record.shape c).read item.value.node = .ok r ∧ report = ofRecords [r] := by
  refine (ofDocument_batch_eq_ok_iff [item] report).trans ⟨?_, ?_⟩
  · rintro ⟨records, read, rfl⟩
    have size : records.length = 1 := by simpa using (congrArg List.length read).symm
    obtain ⟨r, rfl⟩ := List.length_eq_one_iff.mp size
    exact ⟨r, (List.cons.inj read).1, rfl⟩
  · rintro ⟨r, read, rfl⟩
    exact ⟨[r], by rw [List.map_cons, read]; rfl, rfl⟩

/-- What a document says about its records, it says about each as a document of its own does. All
records are translated, in order, or the document is refused as a whole; its version says nothing
about them. -/
theorem batch_recordwise (c : Category) (records : List String)
    (complete : ∀ r ∈ records, Json.Complete r) :
    ((∃ report, ofDocument c (batch records) = .ok report) ↔
      ∀ r ∈ records, ∃ report, ofDocument c (batch [r]) = .ok report) ∧
    (∀ report, ofDocument c (batch records) = .ok report →
      ∃ singles : List (Report c),
        (records.map fun r => ofDocument c (batch [r])) = singles.map .ok ∧
          report = concat singles ∧ report.total = records.length) ∧
    ((¬∃ report, ofDocument c (batch records) = .ok report) →
      ∃ fault, ofDocument c (batch records) = .error ⟨c, fault⟩) ∧
    ∀ (version : TextSpelling) (s : String), version.Spells s →
      ofDocument c (batchAfterVersion (String.ofList version.chars) records) =
          ofDocument c (batch records) ∧
        ofDocument c (batchBeforeVersion (String.ofList version.chars) records) =
          ofDocument c (batch records) := by
  obtain ⟨items, rfl⟩ := Json.exists_items complete
  have accepted_iff := ofDocument_batch_eq_ok_iff (c := c) items
  have each_iff := map_eq_ok_iff_of_translated (ofDocument_batch_one_eq_ok_iff (c := c)) items
  refine ⟨?_, ?_, exists_ofDocument_eq_error, fun version s spells => ⟨?_, ?_⟩⟩
  · simp only [List.forall_mem_map, accepted_iff, ofDocument_batch_one_eq_ok_iff]
    constructor
    · rintro ⟨_, records, read, rfl⟩ item mem
      obtain ⟨r, made⟩ := (exists_map_eq_ok_iff items).mp ⟨records, read⟩ item mem
      exact ⟨ofRecords [r], r, made, rfl⟩
    · intro each
      have single (item : Padded Spelling) (mem : item ∈ items) :
          ∃ r, (Record.shape c).read item.value.node = .ok r := by
        obtain ⟨_, r, made, -⟩ := each item mem
        exact ⟨r, made⟩
      obtain ⟨records, read⟩ := (exists_map_eq_ok_iff items).mpr single
      exact ⟨ofRecords records, records, read, rfl⟩
  · intro report accepted
    obtain ⟨records, read, rfl⟩ := (accepted_iff report).mp accepted
    refine ⟨records.map fun r => ofRecords [r], ?_, (concatFrom_ofRecords 0 records).symm, ?_⟩
    · rw [List.map_map]
      exact (each_iff _).mpr ⟨records, read, rfl⟩
    · rw [ofRecords, total_ofRecordsFrom]
      simpa using (congrArg List.length read).symm
  · exact (ofDocument_of_records (Batch.ofDocument_batchAfterVersion c items version spells)).trans
      (ofDocument_of_records (Batch.ofDocument_batch c items)).symm
  · exact (ofDocument_of_records (Batch.ofDocument_batchBeforeVersion c items version spells)).trans
      (ofDocument_of_records (Batch.ofDocument_batch c items)).symm

def gradeThree : Padded Spelling :=
  .tight (.object
    [Member.plain "grade" (.number (.ofDigit 3))]
    .empty)

def listForm : Padded Spelling :=
  .tight (.list
    [.tight (.number (.ofDigit 7)),
      ⟨⟨[' '], by simp⟩, .text (.ofString "r"), .empty⟩]
    .empty)

theorem batch_recordwise_breaker_pair :
    (∀ r ∈ ["\x7b\"grade\":3\x7d", "[7, \"r\"]"], Json.Complete r) ∧
      ∃ report, ofDocument .circuitBreaking (batch ["\x7b\"grade\":3\x7d", "[7, \"r\"]"]) =
        .ok report ∧ report.total = 2 := by
  have first : gradeThree.document = "\x7b\"grade\":3\x7d" := by decide
  have second : listForm.document = "[7, \"r\"]" := by decide
  rw [← first, ← second]
  have complete : ∀ r ∈ [gradeThree.document, listForm.document], Json.Complete r := by
    simp only [List.forall_mem_cons, List.not_mem_nil, false_imp_iff, implies_true, and_true]
    exact ⟨⟨gradeThree, rfl⟩, ⟨listForm, rfl⟩⟩
  obtain ⟨accepted, reports, -⟩ := batch_recordwise .circuitBreaking _ complete
  have each : ∀ r ∈ [gradeThree.document, listForm.document],
      ∃ report, ofDocument .circuitBreaking (batch [r]) = .ok report := by
    simp only [List.forall_mem_cons, List.not_mem_nil, false_imp_iff, implies_true, and_true,
      ofDocument_batch_one_eq_ok_iff]
    exact ⟨⟨_, _, rfl, rfl⟩, ⟨_, _, rfl, rfl⟩⟩
  obtain ⟨report, made⟩ := accepted.mpr each
  obtain ⟨_, _, _, total⟩ := reports report made
  exact ⟨complete, report, made, total⟩

end Report
end RuleFeed
