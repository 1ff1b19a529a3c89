import RuleFeed.Proofs.Config.Layers
import RuleFeed.Proofs.Config.Shape
import RuleFeed.Proofs.Json.Writable
import RuleFeed.Proofs.Toml.Agreement

/-!
Configurations in two formats. A table of plain values, with the settings of the feed and endpoints
as tables in it, can be written in TOML and in JSON. Whatever it holds, also values of the wrong
type or out of range and names that no configuration has, both texts are read as the same
configuration, or neither is a configuration.
-/
namespace RuleFeed

open Json

structure PlainTable where
  entries : List (String × Scalar)
  distinct : (entries.map Prod.fst).Nodup

/-- What a file may say about a configuration. An entry may have the name of an inner table if
there is no such table. -/
structure ConfigTable extends PlainTable where
  settings : Option PlainTable
  endpoints : Option (List PlainTable)
  settings_apart : settings ≠ none → "datasource" ∉ entries.map Prod.fst
  endpoints_apart : endpoints ≠ none → "endpoints" ∉ entries.map Prod.fst

def PlainTable.json (t : PlainTable) : Json.Value := .ofEntries t.entries

def PlainTable.Lists (lines : List (String × Scalar)) (t : PlainTable) : Prop :=
  lines.Perm t.entries

theorem PlainTable.nodup_of_lists {tables : List (List (String × Scalar))}
    {inner : List PlainTable} (order : List.Forall₂ Lists tables inner) :
    ∀ lines ∈ tables, (lines.map Prod.fst).Nodup := by
  induction order with
  | nil => exact nofun
  | cons first rest ih =>
    exact List.forall_mem_cons.mpr ⟨(first.map Prod.fst).nodup_iff.mpr (PlainTable.distinct _), ih⟩

namespace ConfigTable

def headers : Toml.Headers := ⟨"datasource", "endpoints", by decide⟩

def json (t : ConfigTable) : Json.Value :=
  .object (t.entries.map (fun e => (e.1, e.2.json)) ++
    (t.settings.toList.map (fun inner => ("datasource", inner.json)) ++
      t.endpoints.toList.map fun inner => ("endpoints", .list (inner.map PlainTable.json))))

/-- The text is the table in TOML: its entries, then the inner tables, each behind a header of its
own. Only the endpoints have an order. -/
inductive InToml (t : ConfigTable) (text : String) : Prop
  | intro {lines : List (String × Scalar)} {blocks : List Toml.Block}
      (own : t.toPlainTable.Lists lines)
      (settings : List.Forall₂ PlainTable.Lists (blocks.filterMap Toml.Block.table?)
        t.settings.toList)
      (endpoints : List.Forall₂ PlainTable.Lists (blocks.filterMap Toml.Block.element?)
        (t.endpoints.getD []))
      (written : Toml.Writes text.toList
        (lines.map (fun e => .entry e.1 e.2) ++ blocks.flatMap headers.items)) : InToml t text

end ConfigTable

theorem Scalar.writable_json (v : Scalar) : v.json.Writable := by
  cases v with
  | text s => exact Value.writable_text s
  | bool b => exact Value.writable_bool b
  | integer z => exact Value.writable_integer z.toInt

theorem PlainTable.writable_json (t : PlainTable) : t.json.Writable := by
  refine Value.writable_object fun m mem => ?_
  obtain ⟨e, -, rfl⟩ := List.mem_map.mp mem
  exact e.2.writable_json

namespace ConfigTable

theorem writable_json (t : ConfigTable) : t.json.Writable := by
  refine Value.writable_object fun m mem => ?_
  rcases List.mem_append.mp mem with own | tables
  · obtain ⟨e, -, rfl⟩ := List.mem_map.mp own
    exact e.2.writable_json
  · rcases List.mem_append.mp tables with settings | endpoints
    · obtain ⟨inner, -, rfl⟩ := List.mem_map.mp settings
      exact inner.writable_json
    · obtain ⟨inner, -, rfl⟩ := List.mem_map.mp endpoints
      refine Value.writable_list fun v mem => ?_
      obtain ⟨element, -, rfl⟩ := List.mem_map.mp mem
      exact element.writable_json

theorem exists_inToml (t : ConfigTable) : ∃ text, t.InToml text := by
  let blocks : List Toml.Block := t.settings.toList.map (fun inner => .table inner.entries) ++
    (t.endpoints.getD []).map fun inner => .element inner.entries
  obtain ⟨text, written⟩ := Toml.exists_writes
    (t.entries.map (fun e => .entry e.1 e.2) ++ blocks.flatMap headers.items)
  have each (tables : List PlainTable) :
      List.Forall₂ PlainTable.Lists (tables.map PlainTable.entries) tables :=
    List.forall₂_map_left_iff.mpr (List.forall₂_same.mpr fun inner _ => .refl _)
  have settings : blocks.filterMap Toml.Block.table? =
      t.settings.toList.map PlainTable.entries := by
    simp [blocks, List.filterMap_append, List.filterMap_map, Function.comp_def, Toml.Block.table?]
  have endpoints : blocks.filterMap Toml.Block.element? =
      (t.endpoints.getD []).map PlainTable.entries := by
    simp [blocks, List.filterMap_append, List.filterMap_map, Function.comp_def, Toml.Block.element?]
  refine ⟨text, .intro (.refl _) ?_ ?_ written⟩
  · rw [settings]
    exact each _
  · rw [endpoints]
    exact each _

end ConfigTable

theorem FeedSettings.blind : ∀ f ∈ shape.fields, f.Blind := by
  simp only [shape, List.forall_mem_cons, List.not_mem_nil, false_imp_iff, implies_true, and_true]
  refine ⟨?_, ?_, ?_, ?_⟩
  · exact Field.blind_of_reader (fun m n twins => twins.uint64) rfl
  · exact Field.blind_of_reader (fun m n twins => twins.uint64) rfl
  · exact Field.blind_of_reader (fun m n twins => twins.uint16) rfl
  · exact Field.blind_of_reader (fun m n twins => twins.uint64) rfl

theorem EndpointOverride.blind : ∀ f ∈ shape.fields, f.Blind := by
  simp only [shape, List.forall_mem_cons, List.not_mem_nil, false_imp_iff, implies_true, and_true]
  refine ⟨?_, ?_, ?_⟩
  all_goals exact Field.blind_of_reader (fun m n twins => twins.string) rfl

namespace AgentConfig

theorem blind : ∀ f ∈ shape.fields, f.Blind := by
  simp only [shape, List.forall_mem_cons, List.not_mem_nil, false_imp_iff, implies_true, and_true]
  refine ⟨?_, ?_, ?_, ?_, ?_, ?_, ?_, ?_⟩
  · exact Field.blind_of_reader (fun m n twins => twins.string) rfl
  · exact Field.blind_of_reader (fun m n twins => twins.string) rfl
  · exact Field.blind_of_reader (fun m n twins => twins.string) rfl
  · exact Field.blind_of_reader (fun m n twins => twins.string) rfl
  · exact Field.blind_of_reader (fun m n twins => twins.bool) rfl
  · exact Field.blind_of_reader (fun m n twins => twins.bool) rfl
  · exact Field.blind_of_reader (fun m n twins => twins.read _) rfl
  · exact Field.blind_of_reader (fun m n twins => twins.listOf _) rfl

end AgentConfig

namespace ConfigTable

open Toml (Dual rows)

variable {t : ConfigTable} {lines : List (String × Scalar)}

theorem exists_duals_settings {tables : List (List (String × Scalar))}
    (order : List.Forall₂ PlainTable.Lists tables t.settings.toList) :
    ∃ duals : List Dual, (∀ d ∈ duals, d.Agrees AgentConfig.shape) ∧
      Dual.jsonMembers duals = t.settings.toList.map (fun inner => ("datasource", inner.json)) ∧
      Dual.tomlMembers duals = (tables.map rows).getLast?.toList.map fun ms =>
        ("datasource", .table .stated ms) := by
  cases given : t.settings with
  | none =>
    rw [given] at order
    cases order
    exact ⟨[], nofun, rfl, rfl⟩
  | some inner =>
    rw [given] at order
    cases order with
    | @cons lines _ _ _ first rest =>
      cases rest
      refine ⟨[⟨"datasource", inner.json, .table .stated (rows lines)⟩], ?_, rfl, rfl⟩
      refine List.forall_mem_singleton.mpr (Dual.agrees_of_reader rfl rfl fun s written a => ?_)
      exact Toml.read_row_iff FeedSettings.separate FeedSettings.blind first written .stated a

theorem exists_duals_endpoints {elements : List (List (String × Scalar))}
    (order : List.Forall₂ PlainTable.Lists elements (t.endpoints.getD [])) :
    ∃ duals : List Dual, (∀ d ∈ duals, d.Agrees AgentConfig.shape) ∧
      Dual.jsonMembers duals = t.endpoints.toList.map
        (fun inner => ("endpoints", .list (inner.map PlainTable.json))) ∧
      Dual.tomlMembers duals = (t.endpoints.map fun _ => elements.map rows).toList.map
        fun elements => ("endpoints", .tables elements) := by
  cases given : t.endpoints with
  | none => exact ⟨[], nofun, rfl, rfl⟩
  | some inner =>
    rw [given, Option.getD_some] at order
    refine ⟨[⟨"endpoints", .list (inner.map PlainTable.json), .tables (elements.map rows)⟩], ?_,
      rfl, rfl⟩
    refine List.forall_mem_singleton.mpr (Dual.agrees_of_reader rfl rfl fun s written as => ?_)
    have each : List.Forall₂ List.Perm elements (inner.map PlainTable.entries) :=
      List.forall₂_map_right_iff.mpr order
    refine Toml.read_rows_iff EndpointOverride.separate EndpointOverride.blind each ?_ as
    rwa [List.map_map]

theorem read_of_no_endpoints {c : Toml.Content} (absent : "endpoints" ∉ c.own.map Prod.fst)
    (a : AgentConfig) :
    AgentConfig.shape.read
        (Toml.Value.table .stated (headers.members { c with elements := some [] })).node = .ok a ↔
      AgentConfig.shape.read
        (Toml.Value.table .stated (headers.members { c with elements := none })).node = .ok a := by
  refine (Dual.read_table_perm AgentConfig.separate (headers.perm_elements c []) .stated a).trans ?_
  rw [Toml.node_table, Toml.node_table, List.map_cons]
  have known : AgentConfig.shape.field? headers.elements = some (.optional "endpoints"
      (Node.listOf EndpointOverride.shape.read) fun v c => { c with endpoints := v }) := rfl
  refine AgentConfig.separate.readObject_cons_of_idle (List.mem_of_find?_eq_some known) rfl
    (Shape.effect_of_known (Toml.name_memberNode _) known rfl) rfl ?_ a
  intro n mem key named
  obtain ⟨m, member, rfl⟩ := List.mem_map.mp mem
  obtain rfl : key = "endpoints" := List.mem_singleton.mp named
  rw [Toml.name_memberNode]
  intro same
  refine Toml.Headers.elements_not_mem (h := headers) absent ?_
  rw [show headers.elements = m.1 from (Except.ok.inj same).symm]
  exact List.mem_map_of_mem member

theorem fits {blocks : List Toml.Block} (own : t.toPlainTable.Lists lines)
    (settings : List.Forall₂ PlainTable.Lists (blocks.filterMap Toml.Block.table?)
      t.settings.toList)
    (endpoints : List.Forall₂ PlainTable.Lists (blocks.filterMap Toml.Block.element?)
      (t.endpoints.getD [])) :
    headers.Fits ⟨rows lines, none, none⟩ blocks where
  distinct b mem := by
    cases b with
    | table entries =>
      exact PlainTable.nodup_of_lists settings _ (List.mem_filterMap.mpr ⟨_, mem, rfl⟩)
    | element entries =>
      exact PlainTable.nodup_of_lists endpoints _ (List.mem_filterMap.mpr ⟨_, mem, rfl⟩)
  once := by
    rw [settings.length_eq]
    cases t.settings <;> simp
  table some := by
    rw [Toml.map_fst_rows, (own.map Prod.fst).mem_iff]
    refine t.settings_apart fun none => some ?_
    rw [none] at settings
    exact List.forall₂_nil_right_iff.mp settings
  elements some := by
    rw [Toml.map_fst_rows, (own.map Prod.fst).mem_iff]
    refine t.endpoints_apart fun none => some ?_
    rw [none] at endpoints
    exact List.forall₂_nil_right_iff.mp endpoints

/-- A text without endpoints may be of a table with an empty list of them. -/
theorem read_members_iff (own : t.toPlainTable.Lists lines) (table : Option Toml.Members)
    {elements : List (List (String × Scalar))}
    (endpoints : List.Forall₂ PlainTable.Lists elements (t.endpoints.getD []))
    (a : AgentConfig) :
    AgentConfig.shape.read (Toml.Value.table .stated (headers.members
        ⟨rows lines, table, t.endpoints.map fun _ => elements.map rows⟩)).node = .ok a ↔
      AgentConfig.shape.read (Toml.Value.table .stated (headers.members
        ⟨rows lines, table, if elements = [] then none else some (elements.map rows)⟩)).node =
          .ok a := by
  cases given : t.endpoints with
  | none =>
    rw [given] at endpoints
    rw [if_pos (List.forall₂_nil_right_iff.mp endpoints)]
    rfl
  | some inner =>
    by_cases empty : elements = []
    · have absent : "endpoints" ∉ (rows lines).map Prod.fst := by
        rw [Toml.map_fst_rows, (own.map Prod.fst).mem_iff]
        exact t.endpoints_apart (by simp [given])
      rw [if_pos empty, empty]
      exact read_of_no_endpoints (c := ⟨rows lines, table, none⟩) absent a
    · rw [if_neg empty]
      rfl

theorem read_iff {text : String} (toml : t.InToml text) {s : Spelling} (json : s.Writes t.json) :
    ∃ ms, Toml.Members.read text = some ms ∧ ∀ a,
      AgentConfig.shape.read s.node = .ok a ↔
        AgentConfig.shape.read (Toml.Value.table .stated ms).node = .ok a := by
  obtain @⟨lines, blocks, own, settings, endpoints, written⟩ := toml
  obtain ⟨ms, read, order⟩ := Toml.Members.read_of_writes written
    ((own.map Prod.fst).nodup_iff.mpr t.distinct) (fits own settings endpoints)
  rw [Toml.Content.foldl_add] at order
  obtain ⟨inner, inner_agree, inner_json, inner_toml⟩ := exists_duals_settings settings
  obtain ⟨list, list_agree, list_json, list_toml⟩ := exists_duals_endpoints endpoints
  let duals := t.entries.map Dual.ofEntry ++ (inner ++ list)
  have agree : ∀ d ∈ duals, d.Agrees AgentConfig.shape := by
    refine List.forall_mem_append.mpr ⟨?_, List.forall_mem_append.mpr ⟨inner_agree, list_agree⟩⟩
    exact List.forall_mem_map.mpr fun e _ => Dual.agrees_ofEntry AgentConfig.blind e
  have whole : t.json = .object (Dual.jsonMembers duals) := by
    rw [Dual.jsonMembers_append, Dual.jsonMembers_append, Dual.jsonMembers_ofEntry, inner_json,
      list_json]
    rfl
  have content : (headers.members ⟨rows lines,
      ((blocks.filterMap Toml.Block.table?).map rows).getLast?,
      t.endpoints.map fun _ => (blocks.filterMap Toml.Block.element?).map rows⟩).Perm
      (Dual.tomlMembers duals) := by
    rw [Dual.tomlMembers_append, Dual.tomlMembers_append, Dual.tomlMembers_ofEntry, inner_toml,
      list_toml]
    exact (own.map _).append_right _
  refine ⟨ms, read, fun a => ?_⟩
  rw [whole] at json
  calc
    AgentConfig.shape.read s.node = .ok a ↔ _ :=
      Dual.read_iff_of_agrees AgentConfig.separate agree json .stated a
    _ ↔ _ := Dual.read_table_perm AgentConfig.separate content.symm .stated a
    _ ↔ _ := read_members_iff own _ endpoints a
    _ ↔ _ := Dual.read_table_perm AgentConfig.separate order.symm .stated a

end ConfigTable

namespace AgentConfig

theorem ofFile_toUTF8 (path text : String) :
    ofFile ⟨path, some text.toUTF8⟩ =
      (ofToml? text).elim (.error (.undecodable path)) Except.ok := by
  simp only [ofFile, Option.bind_some, fromUTF8?_toUTF8]
  cases ofToml? text <;> rfl

/-- Every table can be written in both formats, and a file that holds the one text is read as the
other text is; it is reported as a file that cannot be decoded if that one is refused. -/
theorem toml_agrees_with_json (t : ConfigTable) :
    (∃ text, t.InToml text) ∧ t.json.Writable ∧
      ∀ (path text : String) (p : Padded Spelling), t.InToml text → p.value.Writes t.json →
        ofFile ⟨path, some text.toUTF8⟩ =
          (ofDocument p.document).mapError fun _ => .undecodable path := by
  refine ⟨t.exists_inToml, t.writable_json, fun path text p toml json => ?_⟩
  obtain ⟨ms, read, same⟩ := ConfigTable.read_iff toml json
  have document : ofDocument p.document = shape.read p.value.node := by
    rw [ofDocument, Shape.readDocument, Document.read_document]
  have decoded : ofToml? text = (shape.read p.value.node).toOption := by
    have found : Toml.document? text = some (Toml.Value.table .stated ms).node := by
      rw [Toml.document?, read, Option.map_some]
    rw [ofToml?, found]
    refine Option.ext fun a => ?_
    rw [toOption_eq_some_iff, same a, ← toOption_eq_some_iff]
    rfl
  rw [ofFile_toUTF8, decoded, document]
  cases shape.read p.value.node <;> rfl

/-- Both texts are a configuration, in spite of a name that none has, unless the port is out of
range. -/
theorem toml_agrees_with_json_port :
    let table (port : Int64) : ConfigTable :=
      { entries := [("app_name", .text "shop"), ("x", .bool true)]
        distinct := by decide
        settings := some ⟨[("transport_port", .integer port)], List.pairwise_singleton _ _⟩
        endpoints := some [⟨[("key", .text "a")], by decide⟩]
        settings_apart := fun _ => by decide
        endpoints_apart := fun _ => by decide }
    let text (port : String) :=
      "x = true\napp_name = \"sh\\u006fp\"\n[[endpoints]]\nkey = \"a\"\n" ++
        "[datasource]\ntransport_port = " ++ port ++ "\n"
    let document (port : NumberSpelling) : Padded Spelling := .tight (.object
      [Member.plain "x" (.word .true), Member.plain "app_name" (.text (.ofString "shop")),
        Member.plain "datasource" (.object [Member.plain "transport_port" (.number port)] .empty),
        Member.plain "endpoints" (.list
          [.tight (.object [Member.plain "key" (.text (.ofString "a"))] .empty)] .empty)] .empty)
    let small : NumberSpelling := ⟨false, .positive ⟨6, by decide⟩ [0, 0, 0], none, none⟩
    let large : NumberSpelling := ⟨false, .positive ⟨6, by decide⟩ [0, 0, 0, 0], none, none⟩
    ((table 7000).InToml (text "7000") ∧ (document small).value.Writes (table 7000).json ∧
      ofFile ⟨"agent.toml", some (text "7000").toUTF8⟩ =
        .ok { standard with
          appName := "shop"
          feed := { FeedSettings.standard with transportPort := 7000 }
          endpoints := [⟨"a", "", ""⟩] }) ∧
    (table 70000).InToml (text "70000") ∧ (document large).value.Writes (table 70000).json ∧
      ofFile ⟨"agent.toml", some (text "70000").toUTF8⟩ = .error (.undecodable "agent.toml") := by
  intro table text document small large
  have shop : Toml.WritesText "shop" (Toml.quoted [.basic 's' (by decide),
      .basic 'h' (by decide), .code 'o' (.ofNat 0x6f) rfl, .basic 'p' (by decide)]) := .intro rfl
  have a : Toml.WritesText "a" (Toml.quoted [.basic 'a' (by decide)]) := .intro rfl
  have bare (key : String) (allowed : key ≠ "" ∧ key.toList.all (Toml.IsBareKey ·) = true) :
      Toml.WritesKey key key.toList :=
    .bare allowed.1 fun c mem => of_decide_eq_true (List.all_eq_true.mp allowed.2 c mem)
  have assign (key : String) (allowed : key ≠ "" ∧ key.toList.all (Toml.IsBareKey ·) = true)
      {v : Scalar} {cs : List Char} (value : Toml.WritesScalar v cs) :=
    Toml.WritesLine.entry .none .space .space .none (bare key allowed) value
  have lines {port : Int64} {n : NumberSpelling} (decimal : n.Decimal port.toInt) :=
    Toml.Writes.line (assign "x" (by decide) (.bool true)) false <|
    .line (assign "app_name" (by decide) (.text shop)) false <|
    .line (.further .none .none .none .none (bare "endpoints" (by decide))) false <|
    .line (assign "key" (by decide) (.text a)) false <|
    .line (.table .none .none .none .none (bare "datasource" (by decide))) false <|
    .line (assign "transport_port" (by decide) (.integer decimal)) false .nil
  have inToml (port : Int64) {text : String} (written : Toml.Writes text.toList
      [.entry "x" (.bool true), .entry "app_name" (.text "shop"), .further "endpoints",
        .entry "key" (.text "a"), .table "datasource", .entry "transport_port" (.integer port)]) :
      (table port).InToml text :=
    @ConfigTable.InToml.intro (table port) text [("x", .bool true), ("app_name", .text "shop")]
      [.element [("key", .text "a")], .table [("transport_port", .integer port)]]
      (.swap ..) (.cons (.refl _) .nil) (.cons (.refl _) .nil) written
  have json {port : Int64} {n : NumberSpelling} (decimal : n.Decimal port.toInt) :
      (document n).value.Writes (table port).json :=
    .object (.swap ..)
      (.cons (Member.named_plain _ _) (.text (TextSpelling.spells_ofString _))
      (.cons (Member.named_plain _ _) (.bool true)
      (.cons (Member.named_plain _ _)
        (.object (.refl _) (.cons (Member.named_plain _ _) (.integer decimal) .nil))
      (.cons (Member.named_plain _ _) (.list (.cons (.object (.refl _)
        (.cons (Member.named_plain _ _) (.text (TextSpelling.spells_ofString _)) .nil)) .nil))
        .nil))))
  have accepted : small.Decimal (7000 : Int64).toInt := ⟨rfl, rfl, rfl, rfl⟩
  have refused : large.Decimal (70000 : Int64).toInt := ⟨rfl, rfl, rfl, rfl⟩
  have toml : (table 7000).InToml (text "7000") :=
    inToml _ (Eq.mp (congrArg (Toml.Writes · _) (by decide +kernel)) (lines accepted))
  have toml' : (table 70000).InToml (text "70000") :=
    inToml _ (Eq.mp (congrArg (Toml.Writes · _) (by decide +kernel)) (lines refused))
  refine ⟨⟨toml, json accepted, ?_⟩, toml', json refused, ?_⟩
  · refine ((toml_agrees_with_json (table 7000)).2.2 _ _ _ toml (json accepted)).trans ?_
    rw [ofDocument, Shape.readDocument, Document.read_document]
    decide +kernel
  · refine ((toml_agrees_with_json (table 70000)).2.2 _ _ _ toml' (json refused)).trans ?_
    rw [ofDocument, Shape.readDocument, Document.read_document]
    decide +kernel

end AgentConfig
end RuleFeed
