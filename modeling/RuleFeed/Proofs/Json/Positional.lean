import RuleFeed.Proofs.Json.Glyph
import RuleFeed.Proofs.Json.Members
import RuleFeed.Proofs.Json.Tree

/-!
A record as a list of the values of its fields. The items go to the fields in order, and those of
the last fields may be left out; the effects of the items are the ones that members under the names
of these fields have. A shape whose fields are separate therefore reads a list of values and an
object of the same values alike, wherever the members stand in the object, and it takes no item
that no field is left for.
-/
namespace RuleFeed.Json

variable {α : Type}

def Field.effect (f : Field α) (n : Node) : Effect α :=
  match f.update n with
  | .error _ => .fault
  | .ok change => .change f.name change

theorem Shape.effect_eq_of_known {s : Shape α} {m : Node × Node} {key : String} {f : Field α}
    (named : m.1.name = .ok key) (known : s.field? key = some f) :
    s.effect m = f.effect m.2 := by
  cases updated : f.update m.2 <;> simp only [effect, Field.effect, named, known, updated]

/-- What the items of a list do to a record, the first one by the first field. -/
def Field.effects (fields : List (Field α)) (items : List Node) : List (Effect α) :=
  List.zipWith Field.effect fields items

theorem Field.fields_effects {fields : List (Field α)} {items : List Node}
    (readable : .fault ∉ effects fields items) :
    Effect.fields (effects fields items) = (fields.take items.length).map Field.name := by
  induction fields generalizing items with
  | nil => rw [effects, List.zipWith_nil_left, List.take_nil, List.map_nil, Effect.fields_nil]
  | cons f fields ih =>
    cases items with
    | nil => rfl
    | cons n items =>
      rw [effects, List.zipWith_cons_cons, effect] at readable ⊢
      cases updated : f.update n with
      | error e => exact absurd List.mem_cons_self (by simpa only [updated] using readable)
      | ok change =>
        have rest := ih fun mem => readable (List.mem_cons_of_mem _ mem)
        rw [List.length_cons, List.take_succ_cons, List.map_cons, ← rest]
        rfl

namespace Shape

theorem readList_nil_eq_ok_iff (fields : List (Field α)) (value a : α) :
    readList value fields [] .complete = .ok a ↔
      (∀ f ∈ fields, f.mandatory = false) ∧ value = a := by
  cases fields with
  | nil => simp [readList, Close.pass, bind, Except.bind, pure, Except.pure]
  | cons f fields =>
    have optional : (f :: fields).any (·.mandatory) = false ↔
        ∀ g ∈ f :: fields, g.mandatory = false := by
      simp only [List.any_eq_false, Bool.not_eq_true]
    rw [← optional, readList]
    cases (f :: fields).any (·.mandatory) <;>
      simp [Close.pass, bind, Except.bind, pure, Except.pure]

/-- A list is read if every item can be and no mandatory field is left over. -/
theorem readList_eq_ok_iff {fields : List (Field α)} {items : List Node}
    (short : items.length ≤ fields.length) (value a : α) :
    readList value fields items .complete = .ok a ↔
      .fault ∉ Field.effects fields items ∧
        (∀ f ∈ fields.drop items.length, f.mandatory = false) ∧
        Effect.applyAll (Field.effects fields items) value = a := by
  induction items generalizing fields value with
  | nil =>
    rw [readList_nil_eq_ok_iff, Field.effects, List.zipWith_nil_right]
    exact ⟨fun read => ⟨nofun, read⟩, And.right⟩
  | cons n items ih =>
    cases fields with
    | nil => exact absurd short (Nat.not_succ_le_zero _)
    | cons f fields =>
      have shorter : items.length ≤ fields.length := Nat.le_of_succ_le_succ short
      have rest := ih shorter
      rw [readList, Field.effects, List.zipWith_cons_cons, Field.effect]
      cases f.update n with
      | error e => exact ⟨nofun, fun read => absurd List.mem_cons_self read.1⟩
      | ok change =>
        have readable : .fault ∉ Effect.change f.name change :: Field.effects fields items ↔
            .fault ∉ Field.effects fields items := by
          simp only [List.mem_cons, reduceCtorEq, false_or]
        exact (rest (change value)).trans (and_congr_left fun _ => readable.symm)

theorem readList_of_surplus {fields : List (Field α)} {items : List Node}
    (surplus : fields.length < items.length) (value : α) :
    ∃ f, readList value fields items .complete = .error f := by
  induction fields generalizing items value with
  | nil =>
    cases items with
    | nil => exact absurd surplus (Nat.lt_irrefl 0)
    | cons n items => exact ⟨_, rfl⟩
  | cons f fields ih =>
    cases items with
    | nil => exact absurd surplus (Nat.not_lt_zero _)
    | cons n items =>
      rw [readList]
      cases f.update n with
      | error e => exact ⟨e, rfl⟩
      | ok change => exact ih (Nat.lt_of_succ_lt_succ surplus) (change value)

theorem complete_take_iff {s : Shape α} (separate : s.Separate) (k : Nat) :
    s.complete ((s.fields.take k).map Field.name) = true ↔
      ∀ f ∈ s.fields.drop k, f.mandatory = false := by
  have once : ((s.fields.take k ++ s.fields.drop k).map Field.name).Nodup := by
    rw [List.take_append_drop]
    exact nodup_names separate
  rw [List.map_append, List.nodup_append] at once
  obtain ⟨-, -, apart⟩ := once
  have split : s.fields = s.fields.take k ++ s.fields.drop k := (List.take_append_drop k _).symm
  simp only [complete, List.all_eq_true, Bool.or_eq_true, List.contains_eq_mem, decide_eq_true_eq,
    Bool.not_eq_true']
  constructor
  · intro whole f mem
    rcases whole f (List.mem_of_mem_drop mem) with optional | given
    · exact optional
    · exact absurd rfl (apart _ given _ (List.mem_map_of_mem mem))
  · intro optional f mem
    rw [split, List.mem_append] at mem
    rcases mem with early | late
    · exact .inr (List.mem_map_of_mem early)
    · exact .inl (optional f late)

/-- A list is read as an object is whose members do the same to the record, in any order. -/
theorem Separate.readList_eq_ok_iff_readObject {s : Shape α} (separate : s.Separate)
    {items : List Node} (short : items.length ≤ s.fields.length) {members : List (Node × Node)}
    (perm : (members.map s.effect).Perm (Field.effects s.fields items)) (a : α) :
    readList s.blank s.fields items .complete = .ok a ↔
      s.readObject members .complete = .ok a := by
  rw [readObject_eq_ok_iff, separate.yields_perm perm, readList_eq_ok_iff short]
  constructor
  · rintro ⟨readable, optional, value⟩
    have names := Field.fields_effects readable
    refine ⟨readable, ?_, ?_, value⟩
    · rw [names]
      exact (nodup_names separate).sublist ((List.take_sublist _ _).map _)
    · rw [names]
      exact (complete_take_iff separate _).mpr optional
  · rintro ⟨readable, -, complete, value⟩
    rw [Field.fields_effects readable] at complete
    exact ⟨readable, (complete_take_iff separate _).mp complete, value⟩

end Shape

/-- The members that give the values to the fields in order, each under a name of its field. A
value is the same whatever the white space in it. -/
inductive Gives : List (Field α) → List (Padded Spelling) → List Member → Prop
  | nil {fields : List (Field α)} : Gives fields [] []
  | cons {f : Field α} {fields : List (Field α)} {item : Padded Spelling}
      {items : List (Padded Spelling)} {m : Member} {members : List Member} {key : String}
      (named : m.Named key) (mem : key ∈ f.names) (same : m.2.value.node = item.value.node)
      (rest : Gives fields items members) : Gives (f :: fields) (item :: items) (m :: members)

namespace Gives

theorem exists_of_length_le (fields : List (Field α)) (items : List (Padded Spelling))
    (short : items.length ≤ fields.length) : ∃ members, Gives fields items members := by
  induction items generalizing fields with
  | nil => exact ⟨[], .nil⟩
  | cons item items ih =>
    cases fields with
    | nil => exact absurd short (Nat.not_succ_le_zero _)
    | cons f fields =>
      obtain ⟨members, given⟩ := ih fields (Nat.le_of_succ_le_succ short)
      exact ⟨_, .cons (Member.named_plain f.name item.value) List.mem_cons_self rfl given⟩

theorem length_le {fields : List (Field α)} {items : List (Padded Spelling)}
    {members : List Member} (given : Gives fields items members) :
    items.length ≤ fields.length := by
  induction given with
  | nil => exact Nat.zero_le _
  | cons _ _ _ _ ih => exact Nat.succ_le_succ ih

theorem effects_eq {s : Shape α} (separate : s.Separate) {fields : List (Field α)}
    {items : List (Padded Spelling)} {members : List Member} (given : Gives fields items members)
    (part : ∀ f ∈ fields, f ∈ s.fields) :
    (members.map Member.node).map s.effect =
      Field.effects fields (items.map fun item => item.value.node) := by
  induction given with
  | nil => rw [Field.effects, List.map_nil, List.map_nil, List.map_nil, List.zipWith_nil_right]
  | @cons f fields item items m members key named mem same rest ih =>
    have known : s.field? key = some f :=
      (separate.field?_eq_some_iff _ _).mpr ⟨part f List.mem_cons_self, mem⟩
    have here : s.effect m.node = f.effect item.value.node := by
      rw [Shape.effect_eq_of_known ((m.name_node_eq_ok_iff key).mpr named) known, Member.node, same]
    rw [List.map_cons, List.map_cons, List.map_cons, here,
      ih fun f mem => part f (List.mem_cons_of_mem _ mem)]
    rfl

end Gives

namespace Shape

variable {s : Shape α} {items : List (Padded Spelling)} {p : Padded Spelling} {gap : Gap}

theorem Separate.readDocument_list_iff (separate : s.Separate) (list : p.value = .list items gap)
    {q : Padded Spelling} {members ordered : List Member} {gap' : Gap}
    (object : q.value = .object members gap') (order : members.Perm ordered)
    (given : Gives s.fields items ordered) (a : α) :
    s.readDocument p.document = .ok a ↔ s.readDocument q.document = .ok a := by
  have short : (items.map fun item => item.value.node).length ≤ s.fields.length := by
    rw [List.length_map]
    exact given.length_le
  have perm := (order.map Member.node).map s.effect
  rw [given.effects_eq separate fun _ mem => mem] at perm
  rw [readDocument, readDocument, Document.read_document, Document.read_document, list, object,
    Spelling.node, Spelling.node, Spelling.itemNodes_eq_map, Spelling.memberNodes_eq_map]
  exact separate.readList_eq_ok_iff_readObject short perm a

theorem readDocument_of_surplus (list : p.value = .list items gap)
    (surplus : s.fields.length < items.length) : ∃ f, s.readDocument p.document = .error f := by
  rw [readDocument, Document.read_document, list, Spelling.node, Spelling.itemNodes_eq_map]
  exact readList_of_surplus (by rwa [List.length_map]) s.blank

end Shape
end RuleFeed.Json
