import Mathlib.Data.List.Forall2
import RuleFeed.Proofs.Json.Tree
import RuleFeed.Proofs.Toml.Draft

/-!
Tables in two formats. A plain value is the same to all readers whether JSON or TOML writes it: the
same word or number, or a literal of the same text. A table is therefore read alike in both formats
if it has the same names and each name's values are read alike, whatever the order of the members,
and a list of tables if its elements are.
-/
namespace RuleFeed

open Json

def Scalar.json : Scalar → Json.Value
  | text s => .text s
  | bool b => .bool b
  | integer z => .integer z.toInt

namespace Json

def Value.ofEntries (entries : List (String × Scalar)) : Value :=
  .object (entries.map fun e => (e.1, e.2.json))

variable {α β : Type}

/-- The same value, or literals of the same text. -/
inductive Node.Twins : Node → Node → Prop
  | same (n : Node) : Twins n n
  | text {t u : Text} {s : String} (first : t.decode = .ok s) (second : u.decode = .ok s) :
      Twins (.text t) (.text u)

namespace Node.Twins

variable {m n : Node}

theorem wrong (h : m.Twins n) : m.wrong = n.wrong := by
  cases h with
  | same => rfl
  | text first second => simp only [Node.wrong, first, second]

theorem string (h : m.Twins n) : m.string = n.string := by
  cases h with
  | same => rfl
  | text first second => exact first.trans second.symm

theorem bool (h : m.Twins n) : m.bool = n.bool := by
  cases h with
  | same => rfl
  | text first second => exact congrArg Except.error (wrong (.text first second))

theorem integer (h : m.Twins n) (low high : Int) : m.integer low high = n.integer low high := by
  cases h with
  | same => rfl
  | text first second => exact congrArg Except.error (wrong (.text first second))

theorem uint64 (h : m.Twins n) : m.uint64 = n.uint64 := by rw [Node.uint64, Node.uint64, h.integer]

theorem uint16 (h : m.Twins n) : m.uint16 = n.uint16 := by rw [Node.uint16, Node.uint16, h.integer]

theorem listOf (h : m.Twins n) (reader : Node → Reading α) :
    Node.listOf reader m = Node.listOf reader n := by
  cases h with
  | same => rfl
  | text first second => exact congrArg Except.error (wrong (.text first second))

theorem read (h : m.Twins n) (s : Shape α) : s.read m = s.read n := by
  cases h with
  | same => rfl
  | text first second => exact congrArg Except.error (wrong (.text first second))

end Node.Twins

def Field.Blind (f : Field α) : Prop := ∀ m n, Node.Twins m n → f.update m = f.update n

theorem Field.blind_of_reader {f : Field α} {reader : Node → Reading β} {put : β → α → α}
    (same : ∀ m n, Node.Twins m n → reader m = reader n)
    (update : f.update = fun n => (reader n).map put) : f.Blind := by
  intro m n twins
  simp only [update, same m n twins]

end Json

namespace Scalar

theorem twins {v : Scalar} {s : Spelling} (written : s.Writes v.json) :
    s.node.Twins v.toml.node := by
  cases v with
  | text t =>
    cases written with
    | text spells =>
      exact .text ((TextSpelling.decode_eq_ok_iff _ _).mpr spells) (Text.decode_ofString t)
  | bool b =>
    cases written with
    | bool => cases b <;> exact .same _
  | integer z =>
    cases written with
    | integer decimal =>
      have low := z.le_toInt
      have high := z.toInt_lt
      rw [Spelling.node, decimal.numeral_eq (by omega)]
      exact .same _

theorem skip_toml (v : Scalar) : v.toml.node.skip = .ok () := by
  cases v with
  | bool b => cases b <;> rfl
  | _ => rfl

end Scalar

namespace Toml

theorem memberNodes_eq_map (ms : Members) : memberNodes ms = ms.map fun m => (m.1, m.2.node) := by
  induction ms with
  | nil => rfl
  | cons m ms ih => rw [memberNodes, ih, List.map_cons]

theorem tableNodes_eq_map (elements : List Members) :
    tableNodes elements = elements.map fun ms => (Value.table .stated ms).node := by
  induction elements with
  | nil => rfl
  | cons ms elements ih => rw [tableNodes, ih, List.map_cons, Value.node]

def memberNode (m : String × Value) : Node × Node := (.ofString m.1, m.2.node)

theorem node_table (origin : Origin) (ms : Members) :
    (Value.table origin ms).node = .object (ms.map memberNode) .complete := by
  rw [Value.node, memberNodes_eq_map, Node.ofMembers, List.map_map]
  rfl

theorem name_memberNode (m : String × Value) : (memberNode m).1.name = .ok m.1 :=
  Node.name_ofString m.1

structure Dual where
  name : String
  json : Json.Value
  toml : Value

namespace Dual

def ofEntry (e : String × Scalar) : Dual := ⟨e.1, e.2.json, e.2.toml⟩

def jsonMembers (duals : List Dual) : List (String × Json.Value) :=
  duals.map fun d => (d.name, d.json)

def tomlMembers (duals : List Dual) : Members := duals.map fun d => (d.name, d.toml)

theorem jsonMembers_append (duals more : List Dual) :
    jsonMembers (duals ++ more) = jsonMembers duals ++ jsonMembers more := List.map_append

theorem tomlMembers_append (duals more : List Dual) :
    tomlMembers (duals ++ more) = tomlMembers duals ++ tomlMembers more := List.map_append

theorem jsonMembers_ofEntry (entries : List (String × Scalar)) :
    jsonMembers (entries.map ofEntry) = entries.map fun e => (e.1, e.2.json) := by
  rw [jsonMembers, List.map_map]
  rfl

theorem tomlMembers_ofEntry (entries : List (String × Scalar)) :
    tomlMembers (entries.map ofEntry) = rows entries := by
  rw [tomlMembers, List.map_map]
  rfl

variable {α β : Type} {s : Shape α}

def Agrees (s : Shape α) (d : Dual) : Prop :=
  ∀ m : Member, m.Named d.name → m.2.value.Writes d.json →
    s.effect m.node = s.effect (memberNode (d.name, d.toml))

theorem effects_of_agrees {duals : List Dual} (each : ∀ d ∈ duals, d.Agrees s) {ms : List Member}
    (written : Spelling.WritesMembers ms (jsonMembers duals)) :
    (ms.map Member.node).map s.effect = ((tomlMembers duals).map memberNode).map s.effect := by
  induction duals generalizing ms with
  | nil =>
    cases written
    rfl
  | cons d duals ih =>
    cases written with
    | cons named first rest =>
      obtain ⟨here, others⟩ := List.forall_mem_cons.mp each
      rw [List.map_cons, List.map_cons, here _ named first, ih others rest]
      rfl

theorem read_table_perm (separate : s.Separate) {ms ns : Members} (perm : ms.Perm ns)
    (origin : Origin) (a : α) :
    s.read (Value.table origin ms).node = .ok a ↔ s.read (Value.table origin ns).node = .ok a := by
  rw [node_table, node_table]
  exact separate.readObject_perm ((perm.map memberNode).map s.effect) a

/-- Tables whose members agree are read alike. -/
theorem read_iff_of_agrees (separate : s.Separate) {duals : List Dual}
    (each : ∀ d ∈ duals, d.Agrees s) {t : Spelling}
    (written : t.Writes (.object (jsonMembers duals))) (origin : Origin) (a : α) :
    s.read t.node = .ok a ↔ s.read (Value.table origin (tomlMembers duals)).node = .ok a := by
  cases written with
  | @object ns os _ _ perm members =>
    have effects := ((perm.map Member.node).map s.effect).trans
      (.of_eq (effects_of_agrees each members))
    rw [Spelling.node, Spelling.memberNodes_eq_map, node_table]
    exact separate.readObject_perm effects a

theorem agrees_ofEntry (blind : ∀ f ∈ s.fields, f.Blind) (e : String × Scalar) :
    (ofEntry e).Agrees s := by
  intro m named written
  have twins := Scalar.twins written
  have first := (m.name_node_eq_ok_iff _).mpr named
  have second := name_memberNode (e.1, e.2.toml)
  cases known : s.field? e.1 with
  | none =>
    rw [Shape.effect_of_unknown first known (Spelling.skip_node m.2.value)]
    exact (Shape.effect_of_unknown second known e.2.skip_toml).symm
  | some f =>
    have same := blind f (List.mem_of_find?_eq_some known) _ _ twins
    refine Shape.effect_congr first known second known fun change => ?_
    rw [show m.node.2 = m.2.value.node from rfl, same]
    rfl

theorem agrees_of_reader {d : Dual} {f : Json.Field α} {reader : Node → Reading β} {put : β → α → α}
    (known : s.field? d.name = some f) (update : f.update = fun n => (reader n).map put)
    (same : ∀ t : Spelling, t.Writes d.json →
      ∀ b, reader t.node = .ok b ↔ reader d.toml.node = .ok b) :
    d.Agrees s := by
  intro m named written
  refine Shape.effect_congr ((m.name_node_eq_ok_iff _).mpr named) known
    (name_memberNode (d.name, d.toml)) known fun change => ?_
  simp only [update, map_eq_ok_iff, Member.node, memberNode, same _ written]

end Dual

variable {α : Type} {s : Shape α}

theorem read_row_iff (separate : s.Separate) (blind : ∀ f ∈ s.fields, f.Blind)
    {entries lines : List (String × Scalar)} (order : lines.Perm entries) {t : Spelling}
    (written : t.Writes (.ofEntries entries)) (origin : Origin) (a : α) :
    s.read t.node = .ok a ↔ s.read (Value.table origin (rows lines)).node = .ok a := by
  have agree : ∀ d ∈ entries.map Dual.ofEntry, d.Agrees s := by
    intro d mem
    obtain ⟨e, -, rfl⟩ := List.mem_map.mp mem
    exact Dual.agrees_ofEntry blind e
  rw [Json.Value.ofEntries, ← Dual.jsonMembers_ofEntry] at written
  rw [Dual.read_iff_of_agrees separate agree written origin a, Dual.tomlMembers_ofEntry]
  exact Dual.read_table_perm separate (order.map _).symm origin a

theorem map_eq_map_ok_iff {reader : Node → Reading α} {ms ns : List Node}
    (same : List.Forall₂ (fun m n => ∀ a, reader m = .ok a ↔ reader n = .ok a) ms ns)
    (as : List α) : ms.map reader = as.map .ok ↔ ns.map reader = as.map .ok := by
  induction same generalizing as with
  | nil => exact Iff.rfl
  | cons first rest ih =>
    cases as with
    | nil => simp
    | cons a as => simp only [List.map_cons, List.cons.injEq, first a, ih as]

theorem listOf_lenient (reader : Node → Reading α) (items : List Node) :
    Node.listOf reader (.list items .lenient) = Node.listItems reader items := by
  rw [Node.listOf]
  cases Node.listItems reader items <;> rfl

theorem read_rows_iff (separate : s.Separate) (blind : ∀ f ∈ s.fields, f.Blind)
    {table lines : List (List (String × Scalar))} (order : List.Forall₂ List.Perm lines table)
    {t : Spelling} (written : t.Writes (.list (table.map .ofEntries))) (as : List α) :
    Node.listOf s.read t.node = .ok as ↔
      Node.listOf s.read (Value.tables (lines.map rows)).node = .ok as := by
  cases written with
  | @list items _ _ each =>
    rw [Spelling.node, Value.node, Node.listOf_complete, listOf_lenient, Node.listItems_eq_ok_iff,
      Node.listItems_eq_ok_iff, Spelling.itemNodes_eq_map, tableNodes_eq_map]
    refine map_eq_map_ok_iff ?_ as
    induction order generalizing items with
    | nil =>
      cases each
      exact .nil
    | cons first rest ih =>
      cases each with
      | cons item others =>
        exact .cons (read_row_iff separate blind first item .stated) (ih others)

end Toml
end RuleFeed
