import RuleFeed.Json.Shape
import RuleFeed.Proofs.Binary64.Finite

/-!
Properties that reading keeps. Where the blank record has a property and no field of a shape
breaks it, every record has it that the shape reads, from whatever text and in either form. A
number that is read is the value of a literal, and so it is finite.
-/
namespace RuleFeed.Json

theorem Numeral.int?_bounds {n : Numeral} {z : Int} (h : n.int? = some z) :
    -0x8000000000000000 ≤ z ∧ z < 0x10000000000000000 := by
  have digits := n.significand.toNat_lt
  unfold Numeral.int? at h
  split at h
  · cases h
  · split at h
    · split at h
      · cases h
        omega
      · cases h
    · cases h
      omega

/-- The value of some literal. -/
def Legible (x : Binary64) : Prop := ∃ n : Numeral, n.number.map Number.toBinary64 = .ok x

namespace Legible

theorem ofInt {z : Int} (low : -0x8000000000000000 ≤ z) (high : z < 0x10000000000000000) :
    Legible (.ofInt z) := by
  refine ⟨.ofInt z, ?_⟩
  rw [Numeral.number_ofInt low high]
  rfl

theorem zero : Legible .zero := ofInt (z := 0) (by decide) (by decide)

theorem isFinite {x : Binary64} (legible : Legible x) : x.isFinite = true := by
  obtain ⟨n, read⟩ := legible
  obtain ⟨number, decoded, rfl⟩ := (map_eq_ok_iff _ _ _).mp read
  unfold Numeral.number at decoded
  split at decoded
  case h_1 z integer =>
    cases decoded
    exact Binary64.isFinite_ofInt (Numeral.int?_bounds integer).1 (Numeral.int?_bounds integer).2
  case h_2 =>
    split at decoded
    case isTrue finite =>
      cases decoded
      exact finite
    case isFalse => cases decoded

end Legible

namespace Node

theorem legible_of_real {n : Node} {x : Binary64} (h : n.real = .ok x) : Legible x := by
  unfold real at h
  split at h
  case h_1 numeral => exact ⟨numeral, h⟩
  case h_2 => cases h

theorem forall_of_listOf {α : Type} {reader : Node → Reading α} {P : α → Prop}
    (each : ∀ n a, reader n = .ok a → P a) {n : Node} {as : List α}
    (h : n.listOf reader = .ok as) : ∀ a ∈ as, P a := by
  unfold listOf at h
  split at h
  · obtain ⟨bs, items, rest⟩ := (bind_eq_ok_iff _ _ _).mp h
    obtain ⟨-, -, same⟩ := (bind_eq_ok_iff _ _ _).mp rest
    cases same
    intro a mem
    have read : (.ok a : Reading α) ∈ as.map .ok := List.mem_map_of_mem mem
    rw [← (listItems_eq_ok_iff _ _ _).mp items] at read
    obtain ⟨item, -, found⟩ := List.mem_map.mp read
    exact each item a found
  · cases h

end Node

variable {α β : Type}

def Field.Keeps (f : Field α) (P : α → Prop) : Prop :=
  ∀ n change a, f.update n = .ok change → P a → P (change a)

namespace Field

variable {P : α → Prop} {name : String} {default : β} {reader : Node → Reading β}
  {put : β → α → α}

theorem keeps_of_good (Good : β → Prop) (default_good : Good default)
    (read_good : ∀ n b, reader n = .ok b → Good b) (kept : ∀ b a, Good b → P a → P (put b a)) :
    (nullable name default reader put).Keeps P := by
  intro n change a updated holds
  obtain ⟨b, read, rfl⟩ := (map_eq_ok_iff _ _ _).mp updated
  refine kept b a ?_ holds
  unfold Node.orDefault at read
  split at read
  · cases read
    exact default_good
  · exact read_good _ _ read

theorem keeps_required (Good : β → Prop) (read_good : ∀ n b, reader n = .ok b → Good b)
    (kept : ∀ b a, Good b → P a → P (put b a)) : (required name reader put).Keeps P := by
  intro n change a updated holds
  obtain ⟨b, read, rfl⟩ := (map_eq_ok_iff _ _ _).mp updated
  exact kept b a (read_good n b read) holds

theorem keeps_required_of_put (kept : ∀ b a, P a → P (put b a)) :
    (required name reader put).Keeps P :=
  keeps_required (fun _ => True) (fun _ _ _ => trivial) fun b a _ => kept b a

theorem keeps_of_put (kept : ∀ b a, P a → P (put b a)) :
    (nullable name default reader put).Keeps P :=
  keeps_of_good (fun _ => True) trivial (fun _ _ _ => trivial) fun b a _ => kept b a

theorem Keeps.withAlias {f : Field α} (h : f.Keeps P) (name : String) :
    (f.withAlias name).Keeps P := h

end Field

/-- A property that the blank record has and that no field breaks. -/
structure Shape.Keeps (s : Shape α) (P : α → Prop) : Prop where
  blank : P s.blank
  fields : ∀ f ∈ s.fields, f.Keeps P

namespace Shape.Keeps

variable {s : Shape α} {P : α → Prop}

theorem readMember (keeps : s.Keeps P) {p q : Progress α} {name value : Node}
    (read : s.readMember p name value = .ok q) (holds : P p.value) : P q.value := by
  obtain ⟨key, -, read⟩ := (bind_eq_ok_iff _ _ _).mp read
  split at read
  case h_1 =>
    obtain ⟨-, -, same⟩ := (bind_eq_ok_iff _ _ _).mp read
    cases same
    exact holds
  case h_2 f found =>
    split at read
    · cases read
    · obtain ⟨change, updated, same⟩ := (bind_eq_ok_iff _ _ _).mp read
      cases same
      exact keeps.fields f (List.mem_of_find?_eq_some found) _ _ _ updated holds

theorem readMembers (keeps : s.Keeps P) {members : List (Node × Node)} {p q : Progress α}
    (read : s.readMembers p members = .ok q) (holds : P p.value) : P q.value := by
  induction members generalizing p with
  | nil =>
    cases read
    exact holds
  | cons m members ih =>
    obtain ⟨next, first, rest⟩ := (bind_eq_ok_iff _ _ _).mp read
    exact ih rest (keeps.readMember first holds)

theorem readList {fields : List (Field α)} (keeps : ∀ f ∈ fields, f.Keeps P) {items : List Node}
    {close : Close} {value a : α} (read : Shape.readList value fields items close = .ok a)
    (holds : P value) : P a := by
  induction fields generalizing value items with
  | nil =>
    cases items with
    | nil =>
      obtain ⟨-, -, same⟩ := (bind_eq_ok_iff _ _ _).mp read
      cases same
      exact holds
    | cons n items =>
      cases close <;> cases read
      exact holds
  | cons f fields ih =>
    cases items with
    | nil =>
      obtain ⟨-, -, read⟩ := (bind_eq_ok_iff _ _ _).mp read
      split at read <;> cases read
      exact holds
    | cons n items =>
      obtain ⟨change, updated, rest⟩ := (bind_eq_ok_iff _ _ _).mp read
      refine ih (fun g mem => keeps g (List.mem_cons_of_mem f mem)) rest ?_
      exact keeps f List.mem_cons_self _ _ _ updated holds

theorem read (keeps : s.Keeps P) {n : Node} {a : α} (read : s.read n = .ok a) : P a := by
  cases n with
  | object members close =>
    obtain ⟨p, members, rest⟩ := (bind_eq_ok_iff _ _ _).mp read
    obtain ⟨-, -, complete⟩ := (bind_eq_ok_iff _ _ _).mp rest
    split at complete <;> cases complete
    exact keeps.readMembers members keeps.blank
  | list items close => exact readList keeps.fields read keeps.blank
  | _ => cases read

theorem readDocument (keeps : s.Keeps P) {text : String} {a : α}
    (read : s.readDocument text = .ok a) : P a := by
  obtain ⟨b, root, rest⟩ := (bind_eq_ok_iff _ _ _).mp read
  split at rest <;> cases rest
  exact keeps.read root

end Shape.Keeps
end RuleFeed.Json
