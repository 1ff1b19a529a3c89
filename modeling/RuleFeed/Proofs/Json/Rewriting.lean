import RuleFeed.Proofs.Json.Glyph
import RuleFeed.Proofs.Json.Members
import RuleFeed.Proofs.Json.Tree

/-!
Objects written in another way. Members may stand in another order, a known member that is `null`
may be left out, a member that is not known may be put in, and a member may stand under another
of its names; where a member is a list of objects, these may be written in another way in turn.
A shape whose fields are separate and forgive `null` reads both writings alike.
-/
namespace RuleFeed.Json

variable {α β : Type}

/-- Two writings of the members of an object. The names that are known come in groups, one for
each member that there can be. Items of a list that stands under a name of `nested` may be
exchanged as `item` has it. -/
inductive Rewrites (known : List (List String)) (nested : List String)
    (item : Spelling → Spelling → Prop) : List Member → List Member → Prop where
  | reorder {ms ns : List Member} (perm : ms.Perm ns) : Rewrites known nested item ms ns
  /-- A known member that is `null`, where the object has it no second time. -/
  | null {m : Member} {ms : List Member} {names : List String} {key : String}
      (group : names ∈ known) (mem : key ∈ names) (named : m.Named key)
      (null : m.2.value = .word .null) (absent : ∀ n ∈ ms, ∀ key ∈ names, ¬n.Named key) :
      Rewrites known nested item (m :: ms) ms
  | unknown {m : Member} {ms : List Member} {key : String} (named : m.Named key)
      (unknown : ∀ names ∈ known, key ∉ names) : Rewrites known nested item (m :: ms) ms
  | rename {m n : Member} {ms : List Member} {names : List String} {key key' : String}
      (group : names ∈ known) (mem : key ∈ names) (mem' : key' ∈ names) (named : m.Named key)
      (named' : n.Named key') (same : m.2 = n.2) :
      Rewrites known nested item (m :: ms) (n :: ms)
  | inside {m n : Member} {ms : List Member} {key : String} {before after : List (Padded Spelling)}
      {p q : Padded Spelling} {gap : Gap} (mem : key ∈ nested) (named : m.Named key)
      (exchanged : item p.value q.value) (same : m.1 = n.1)
      (first : m.2.value = .list (before ++ p :: after) gap)
      (second : n.2.value = .list (before ++ q :: after) gap) :
      Rewrites known nested item (m :: ms) (n :: ms)
  | symm {ms ns : List Member} (h : Rewrites known nested item ms ns) :
      Rewrites known nested item ns ms
  | trans {ms ns ks : List Member} (h : Rewrites known nested item ms ns)
      (h' : Rewrites known nested item ns ks) : Rewrites known nested item ms ks

inductive Spelling.RewritesObject (known : List (List String)) (nested : List String)
    (item : Spelling → Spelling → Prop) : Spelling → Spelling → Prop where
  | intro {ms ns : List Member} {gap gap' : Gap} (members : Rewrites known nested item ms ns) :
      RewritesObject known nested item (.object ms gap) (.object ns gap')

def Node.Alike (reader : Node → Reading α) (m n : Node) : Prop :=
  ∀ a, reader m = .ok a ↔ reader n = .ok a

theorem Node.listItems_cons_eq_ok_iff (reader : Node → Reading α) (n : Node) (items : List Node)
    (as : List α) :
    listItems reader (n :: items) = .ok as ↔
      ∃ a rest, reader n = .ok a ∧ listItems reader items = .ok rest ∧ a :: rest = as := by
  rw [listItems]
  cases reader n <;> cases listItems reader items <;> simp [bind, Except.bind, pure, Except.pure]

namespace Node.Alike

theorem map {reader : Node → Reading α} {m n : Node} (h : Alike reader m n) (f : α → β) :
    Alike (fun n => (reader n).map f) m n := by
  intro b
  simp only [map_eq_ok_iff, h _]

theorem list {reader : Node → Reading α} {m n : Node} (h : Alike reader m n)
    (before after : List Node) :
    Alike (listOf reader) (.list (before ++ m :: after) .complete)
      (.list (before ++ n :: after) .complete) := by
  intro as
  simp only [listOf_complete]
  induction before generalizing as with
  | nil => simp only [List.nil_append, listItems_cons_eq_ok_iff, h _]
  | cons k before ih => simp only [List.cons_append, listItems_cons_eq_ok_iff, ih]

end Node.Alike

/-- A shape that knows the names and reads exchanged items alike. -/
structure Shape.Respects (s : Shape α) (known : List (List String)) (nested : List String)
    (item : Spelling → Spelling → Prop) : Prop where
  separate : s.Separate
  forgiving : s.Forgiving
  names : s.fields.map Field.names = known
  nested_known : ∀ key ∈ nested, ∃ names ∈ known, key ∈ names
  inside : ∀ key ∈ nested, ∀ f, s.field? key = some f → ∀ p q, item p q → ∀ before after,
    Node.Alike f.update (.list (before ++ p.node :: after) .complete)
      (.list (before ++ q.node :: after) .complete)

namespace Shape.Respects

variable {s : Shape α} {known : List (List String)} {nested : List String}
  {item : Spelling → Spelling → Prop}

theorem exists_field (respects : s.Respects known nested item) {names : List String}
    {key : String} (group : names ∈ known) (mem : key ∈ names) :
    ∃ f, f.names = names ∧ s.field? key = some f := by
  rw [← respects.names] at group
  obtain ⟨f, hf, rfl⟩ := List.mem_map.mp group
  exact ⟨f, rfl, (respects.separate.field?_eq_some_iff key f).mpr ⟨hf, mem⟩⟩

theorem field?_eq_none (respects : s.Respects known nested item) {key : String}
    (unknown : ∀ names ∈ known, key ∉ names) : s.field? key = none := by
  rw [s.field?_eq_none_iff key]
  intro f hf
  exact unknown f.names (respects.names ▸ List.mem_map.mpr ⟨f, hf, rfl⟩)

theorem effect_inside (respects : s.Respects known nested item) {m n : Member} {key : String}
    {before after : List (Padded Spelling)} {p q : Padded Spelling} {gap : Gap} (mem : key ∈ nested)
    (named : m.Named key) (exchanged : item p.value q.value) (same : m.1 = n.1)
    (first : m.2.value = .list (before ++ p :: after) gap)
    (second : n.2.value = .list (before ++ q :: after) gap) :
    s.effect m.node = s.effect n.node := by
  obtain ⟨names, group, mem_names⟩ := respects.nested_known key mem
  obtain ⟨f, rfl, known⟩ := respects.exists_field group mem_names
  have alike := respects.inside key mem f known _ _ exchanged
    (before.map fun p => p.value.node) (after.map fun p => p.value.node)
  have m_value : m.node.2 =
      .list ((before ++ p :: after).map fun p => p.value.node) .complete := by
    rw [Member.node, first, Spelling.node, Spelling.itemNodes_eq_map]
  have n_value : n.node.2 =
      .list ((before ++ q :: after).map fun p => p.value.node) .complete := by
    rw [Member.node, second, Spelling.node, Spelling.itemNodes_eq_map]
  have m_read := (m.name_node_eq_ok_iff key).mpr named
  have n_read : n.node.1.name = .ok key := by
    rw [← m_read, Member.node, Member.node, same]
  refine Shape.effect_congr m_read known n_read known fun change => ?_
  rw [m_value, n_value, List.map_append, List.map_append, List.map_cons, List.map_cons]
  exact alike change

theorem readObject_iff (respects : s.Respects known nested item) {ms ns : List Member}
    (h : Rewrites known nested item ms ns) (a : α) :
    s.readObject (ms.map Member.node) .complete = .ok a ↔
      s.readObject (ns.map Member.node) .complete = .ok a := by
  induction h with
  | reorder perm =>
    exact respects.separate.readObject_perm ((perm.map Member.node).map s.effect) a
  | @null m ms names key group mem named null absent =>
    obtain ⟨f, rfl, known⟩ := respects.exists_field group mem
    have value : m.node.2 = .null := by rw [Member.node, null]; rfl
    refine respects.separate.readObject_cons_of_null respects.forgiving
      ((m.name_node_eq_ok_iff key).mpr named) known value ?_ a
    intro _ found key mem read
    obtain ⟨n, hn, rfl⟩ := List.mem_map.mp found
    exact absent n hn key mem ((n.name_node_eq_ok_iff key).mp read)
  | @unknown m ms key named unknown =>
    exact Shape.readObject_cons_of_unknown ((m.name_node_eq_ok_iff key).mpr named)
      (respects.field?_eq_none unknown) (Spelling.skip_node m.2.value) _ a
  | @rename m n ms names key key' group mem mem' named named' same =>
    obtain ⟨f, rfl, known⟩ := respects.exists_field group mem
    have known' : s.field? key' = some f :=
      (respects.separate.field?_eq_some_iff key' f).mpr
        ⟨List.mem_of_find?_eq_some known, mem'⟩
    refine Shape.readObject_cons_congr (Shape.effect_congr
      ((m.name_node_eq_ok_iff key).mpr named) known ((n.name_node_eq_ok_iff key').mpr named')
      known' fun change => ?_) _ a
    rw [Member.node, Member.node, same]
  | inside mem named exchanged same first second =>
    exact Shape.readObject_cons_congr
      (respects.effect_inside mem named exchanged same first second) _ a
  | symm _ ih => exact ih.symm
  | trans _ _ first second => exact first.trans second

theorem alike (respects : s.Respects known nested item) {p q : Spelling}
    (h : p.RewritesObject known nested item q) : Node.Alike s.read p.node q.node := by
  obtain ⟨members⟩ := h
  intro a
  rw [Spelling.node, Spelling.node, Spelling.memberNodes_eq_map, Spelling.memberNodes_eq_map]
  exact respects.readObject_iff members a

end Shape.Respects
end RuleFeed.Json
