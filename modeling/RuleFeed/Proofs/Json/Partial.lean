import Mathlib.Data.List.Forall2
import RuleFeed.Proofs.Json.Tree
import RuleFeed.Proofs.Json.Writing

/-!
Objects that write some fields of a record and leave out others. The fields that are written have
one member each; other members may stand among them under names that are not known, as often as
they like. The record that is read has the written values and is blank in all other fields.
-/
namespace RuleFeed.Json

variable {α β : Type}

/-- A member to be: its name, and the spellings that its value may have. -/
abbrev Entry := String × (Spelling → Prop)

def chosen (options : List (Bool × Entry)) : List Entry :=
  options.filterMap fun option => if option.1 then some option.2 else none

/-- The members write the entries one by one; members of names that are not known stand among
them. -/
inductive WritesEntries (known : List String) : List Entry → List Member → Prop
  | nil : WritesEntries known [] []
  | entry {name : String} {P : Spelling → Prop} {entries : List Entry} {m : Member}
      {ms : List Member} (named : m.Named name) (spelled : P m.2.value)
      (rest : WritesEntries known entries ms) :
      WritesEntries known ((name, P) :: entries) (m :: ms)
  | extra {key : String} {entries : List Entry} {m : Member} {ms : List Member}
      (named : m.Named key) (unknown : key ∉ known) (rest : WritesEntries known entries ms) :
      WritesEntries known entries (m :: ms)

inductive Spelling.WritesObject (known : List String) (entries : List Entry) : Spelling → Prop
  | intro {ms ns : List Member} {gap : Gap} (order : ms.Perm ns)
      (each : WritesEntries known entries ns) : WritesObject known entries (.object ms gap)

inductive Spelling.WritesList (P : α → Spelling → Prop) (as : List α) : Spelling → Prop
  | intro {items : List (Padded Spelling)} {gap : Gap}
      (each : List.Forall₂ (fun a item => P a item.value) as items) :
      WritesList P as (.list items gap)

def ReadsAs (P : Spelling → Prop) (reader : Node → Reading α) (a : α) : Prop :=
  ∀ s : Spelling, P s → reader s.node = .ok a

theorem Spelling.WritesList.listOf {P : α → Spelling → Prop} {reader : Node → Reading α}
    {as : List α} (reads : ∀ a ∈ as, ReadsAs (P a) reader a) :
    ReadsAs (WritesList P as) (Node.listOf reader) as := by
  rintro _ ⟨each⟩
  rw [Spelling.node, Spelling.itemNodes_eq_map, Node.listOf_complete, Node.listItems_eq_ok_iff,
    List.map_map]
  induction each with
  | nil => rfl
  | cons first rest ih =>
    obtain ⟨head, tail⟩ := List.forall_mem_cons.mp reads
    rw [List.map_cons, List.map_cons, ih tail]
    exact congrArg (· :: _) (head _ first)

/-- Entries that can be written one by one can be written in one object. -/
theorem Spelling.WritesObject.exists (options : List (Bool × Entry)) (known : List String)
    (each : ∀ option ∈ options, ∃ s, option.2.2 s) :
    ∃ s, WritesObject known (chosen options) s := by
  have written : ∃ ms, WritesEntries known (chosen options) ms := by
    induction options with
    | nil => exact ⟨[], .nil⟩
    | cons option options ih =>
      obtain ⟨w, name, P⟩ := option
      obtain ⟨⟨s, spelled⟩, others⟩ := List.forall_mem_cons.mp each
      obtain ⟨ms, rest⟩ := ih others
      cases w with
      | false => exact ⟨ms, rest⟩
      | true =>
        exact ⟨Member.plain name s :: ms, .entry (Member.named_plain _ _) spelled rest⟩
  obtain ⟨ms, written⟩ := written
  exact ⟨.object ms .empty, .intro (.refl ms) written⟩

theorem Spelling.WritesList.exists {P : α → Spelling → Prop} (each : ∀ a, ∃ s, P a s)
    (as : List α) : ∃ s, WritesList P as s := by
  have written :
      ∃ items, List.Forall₂ (fun a (item : Padded Spelling) => P a item.value) as items := by
    induction as with
    | nil => exact ⟨[], .nil⟩
    | cons a as ih =>
      obtain ⟨s, spelled⟩ := each a
      obtain ⟨items, rest⟩ := ih
      exact ⟨.tight s :: items, .cons spelled rest⟩
  obtain ⟨items, written⟩ := written
  exact ⟨.list items .empty, .intro written⟩

/-- The options, one for each field in order, turn the first record into the second: an entry that
is not written leaves the record alone and belongs to a field that is not mandatory. -/
inductive Supplies : List (Field α) → List (Bool × Entry) → α → α → Prop
  | nil {a : α} : Supplies [] [] a a
  | written {f : Field α} {fields : List (Field α)} {P : Spelling → Prop}
      {options : List (Bool × Entry)} {change : α → α} {a b : α}
      (reads : ReadsAs P f.update change) (rest : Supplies fields options (change a) b) :
      Supplies (f :: fields) ((true, f.name, P) :: options) a b
  | omitted {f : Field α} {fields : List (Field α)} {e : Entry} {options : List (Bool × Entry)}
      {a b : α} (optional : f.mandatory = false) (rest : Supplies fields options a b) :
      Supplies (f :: fields) ((false, e) :: options) a b

theorem Supplies.optional {name : String} {P : Spelling → Prop} {w : Bool}
    {reader : Node → Reading β} {put : β → α → α} {v default : β} {fields : List (Field α)}
    {options : List (Bool × Entry)} {a b : α} (reads : ReadsAs P reader v)
    (unset : put default a = a)
    (rest : Supplies fields options (put (if w then v else default) a) b) :
    Supplies (.optional name reader put :: fields) ((w, name, P) :: options) a b := by
  cases w with
  | false =>
    rw [if_neg Bool.false_ne_true, unset] at rest
    exact .omitted rfl rest
  | true =>
    refine .written (fun s spelled => ?_) rest
    simp only [Field.optional, reads s spelled]
    rfl

theorem Supplies.sublist {fields : List (Field α)} {options : List (Bool × Entry)} {a b : α}
    (supplies : Supplies fields options a b) :
    ((chosen options).map Prod.fst).Sublist (fields.map Field.name) := by
  induction supplies with
  | nil => exact .slnil
  | written _ _ ih => exact ih.cons_cons _
  | omitted _ _ ih => exact ih.cons _

theorem Supplies.mem_of_mandatory {fields : List (Field α)} {options : List (Bool × Entry)}
    {a b : α} (supplies : Supplies fields options a b) {f : Field α} (mem : f ∈ fields)
    (mandatory : f.mandatory = true) : f.name ∈ (chosen options).map Prod.fst := by
  induction supplies with
  | nil => cases mem
  | written _ _ ih =>
    rcases List.mem_cons.mp mem with rfl | mem
    · exact List.mem_cons_self
    · exact List.mem_cons_of_mem _ (ih mem)
  | omitted optional _ ih =>
    rcases List.mem_cons.mp mem with rfl | mem
    · cases mandatory.symm.trans optional
    · exact ih mem

def Member.Foreign (known : List String) (m : Member) : Prop :=
  ∃ key, m.Named key ∧ key ∉ known

namespace WritesEntries

variable {known : List String} {entries : List Entry} {ms : List Member}

theorem foreign_of_nil (written : WritesEntries known [] ms) : ∀ m ∈ ms, m.Foreign known := by
  generalize none : ([] : List Entry) = entries at written
  induction written with
  | nil => exact List.forall_mem_nil _
  | entry => cases none
  | extra named unknown _ ih => exact List.forall_mem_cons.mpr ⟨⟨_, named, unknown⟩, ih none⟩

theorem exists_entry {name : String} {P : Spelling → Prop}
    (written : WritesEntries known ((name, P) :: entries) ms) :
    ∃ (extras : List Member) (m : Member) (rest : List Member), ms = extras ++ m :: rest ∧
      (∀ n ∈ extras, n.Foreign known) ∧ m.Named name ∧ P m.2.value ∧
      WritesEntries known entries rest := by
  generalize whole : (name, P) :: entries = all at written
  induction written with
  | nil => cases whole
  | entry named spelled rest =>
    cases whole
    exact ⟨[], _, _, rfl, List.forall_mem_nil _, named, spelled, rest⟩
  | @extra key _ m ms named unknown _ ih =>
    obtain ⟨extras, n, rest, rfl, foreign, others⟩ := ih whole
    exact ⟨m :: extras, n, rest, rfl, List.forall_mem_cons.mpr ⟨⟨key, named, unknown⟩, foreign⟩,
      others⟩

end WritesEntries

namespace Shape

variable {s : Shape α} {known : List String}

theorem effects_of_foreign (unknown : ∀ key, key ∉ known → s.field? key = none)
    {extras : List Member} (foreign : ∀ m ∈ extras, m.Foreign known) (effects : List (Effect α)) :
    let all := (extras.map Member.node).map s.effect ++ effects
    (.fault ∉ effects → .fault ∉ all) ∧ Effect.fields all = Effect.fields effects ∧
      ∀ a, Effect.applyAll all a = Effect.applyAll effects a := by
  induction extras with
  | nil => exact ⟨id, rfl, fun _ => rfl⟩
  | cons m extras ih =>
    obtain ⟨⟨key, named, other⟩, foreign⟩ := List.forall_mem_cons.mp foreign
    obtain ⟨readable, names, value⟩ := ih foreign
    have nothing : s.effect m.node = .nothing :=
      effect_of_unknown ((m.name_node_eq_ok_iff key).mpr named) (unknown key other)
        (Spelling.skip_node m.2.value)
    simp only [List.map_cons, List.cons_append, nothing, Effect.fields_nothing,
      Effect.applyAll_nothing]
    exact ⟨fun clean => by simpa using readable clean, names, value⟩

theorem effects_of_supplies (separate : s.Separate)
    (unknown : ∀ key, key ∉ known → s.field? key = none) {fields : List (Field α)}
    {options : List (Bool × Entry)} {a b : α} (supplies : Supplies fields options a b)
    (part : ∀ f ∈ fields, f ∈ s.fields) {ms : List Member}
    (written : WritesEntries known (chosen options) ms) :
    .fault ∉ (ms.map Member.node).map s.effect ∧
      Effect.fields ((ms.map Member.node).map s.effect) = (chosen options).map Prod.fst ∧
      Effect.applyAll ((ms.map Member.node).map s.effect) a = b := by
  induction supplies generalizing ms with
  | nil =>
    obtain ⟨readable, names, value⟩ := effects_of_foreign unknown written.foreign_of_nil []
    rw [List.append_nil] at readable names value
    exact ⟨readable nofun, names, value _⟩
  | omitted _ _ ih => exact ih (fun f mem => part f (List.mem_cons_of_mem _ mem)) written
  | @written f fields P options change a b reads _ ih =>
    obtain ⟨extras, m, rest, rfl, foreign, named, spelled, others⟩ :=
      WritesEntries.exists_entry written
    have known : s.field? f.name = some f :=
      (separate.field?_eq_some_iff _ _).mpr ⟨part f List.mem_cons_self, List.mem_cons_self⟩
    have effect : s.effect m.node = .change f.name change :=
      effect_of_known ((m.name_node_eq_ok_iff f.name).mpr named) known (reads _ spelled)
    obtain ⟨readable, names, value⟩ := ih (fun f mem => part f (List.mem_cons_of_mem _ mem)) others
    obtain ⟨clean, same, alike⟩ := effects_of_foreign unknown foreign
      ((rest.map Member.node).map s.effect |> (.change f.name change :: ·))
    rw [List.map_append, List.map_append, List.map_cons, List.map_cons, effect, same, alike,
      Effect.fields_change, Effect.applyAll_change, names]
    exact ⟨clean (by simpa using readable), rfl, value⟩

/-- A record is read back from an object that writes some of its fields. -/
theorem readsAs_of_supplies (separate : s.Separate) (names : s.fields.flatMap Field.names = known)
    {options : List (Bool × Entry)} {a : α} (supplies : Supplies s.fields options s.blank a) :
    ReadsAs (Spelling.WritesObject known (chosen options)) s.read a := by
  have unknown (key : String) (other : key ∉ known) : s.field? key = none :=
    (s.field?_eq_none_iff key).mpr fun f mem named =>
      other (names ▸ List.mem_flatMap.mpr ⟨f, mem, named⟩)
  rintro _ ⟨order, each⟩
  obtain ⟨readable, names, value⟩ :=
    effects_of_supplies separate unknown supplies (fun _ mem => mem) each
  rw [Spelling.node, Spelling.memberNodes_eq_map]
  refine (separate.readObject_perm ((order.map Member.node).map s.effect) a).mpr ?_
  refine (s.readObject_eq_ok_iff _ a).mpr ⟨readable, ?_, ?_, value⟩
  · rw [names]
    exact (nodup_names separate).sublist supplies.sublist
  · rw [names, Shape.complete, List.all_eq_true]
    intro f mem
    cases mandatory : f.mandatory with
    | false => rfl
    | true => simpa using supplies.mem_of_mandatory mem mandatory

end Shape
end RuleFeed.Json
