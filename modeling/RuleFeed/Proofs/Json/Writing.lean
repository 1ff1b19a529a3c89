import Mathlib.Data.List.Induction
import RuleFeed.Json.Value
import RuleFeed.Proofs.Json.Glyph
import RuleFeed.Proofs.Json.Members

/-!
Values and the spellings that write them. A spelling writes a value if it chooses nothing but white
space, escapes, the literal of each binary64 and the order of members. What a reader makes of a
value is then the same for every spelling that writes it, for an object also whatever the order of
its members; so a record is read back if each of its fields reads the value under its name.
-/
namespace RuleFeed.Json

theorem digitsValue_concat (ds : List (Fin 10)) (d : Fin 10) :
    digitsValue (ds ++ [d]) = digitsValue ds * 10 + d.val := by
  simp only [digitsValue, List.foldl_append, List.foldl_cons, List.foldl_nil]

namespace NumberSpelling

/-- The literal is the integer in decimal, without point and exponent. -/
structure Decimal (n : NumberSpelling) (z : Int) : Prop where
  negative : n.negative = decide (z < 0)
  digits : digitsValue n.whole.list = z.natAbs
  fraction : n.fraction = none
  exponent : n.exponent = none

def Reads (n : NumberSpelling) (x : Binary64) : Prop :=
  n.numeral.number.map Number.toBinary64 = .ok x

instance (n : NumberSpelling) (x : Binary64) : Decidable (n.Reads x) :=
  inferInstanceAs (Decidable (_ = _))

/-- As many digits as fit are the decimal digits of the significand. -/
theorem foldl_addWhole (negative : Bool) {ds : List (Fin 10)}
    (fits : digitsValue ds < 0x10000000000000000) :
    ds.foldl (fun m d => m.addWhole d.val) (.start negative) =
      { Numeral.start negative with significand := .ofNat (digitsValue ds) } := by
  induction ds using List.reverseRecOn with
  | nil => rfl
  | append_singleton ds d ih =>
    rw [digitsValue_concat] at fits ⊢
    have size : (UInt64.ofNat (digitsValue ds)).toNat = digitsValue ds :=
      UInt64.toNat_ofNat_of_lt' (by simp only [UInt64.size]; omega)
    rw [List.foldl_append, ih (by omega), List.foldl_cons, List.foldl_nil, Numeral.addWhole, if_pos]
    · simp only [Numeral.take, size]
    · simp [Numeral.takes, Numeral.start, size, fits]

theorem Decimal.numeral_eq {n : NumberSpelling} {z : Int} (h : n.Decimal z)
    (fits : z.natAbs < 0x10000000000000000) : n.numeral = .ofInt z := by
  obtain ⟨negative, digits, fraction, exponent⟩ := h
  rw [numeral, fraction, exponent, withFraction, withExponent, wholePart,
    foldl_addWhole _ (digits ▸ fits), negative, digits]
  rfl

end NumberSpelling

namespace Spelling

mutual
inductive Writes : Spelling → Value → Prop
  | null : Writes (.word .null) .null
  | bool (b : Bool) : Writes (.word (if b then .true else .false)) (.bool b)
  | integer {n : NumberSpelling} {z : Int} (decimal : n.Decimal z) : Writes (.number n) (.integer z)
  | real {n : NumberSpelling} {x : Binary64} (reads : n.Reads x) : Writes (.number n) (.real x)
  | text {t : TextSpelling} {s : String} (spells : t.Spells s) : Writes (.text t) (.text s)
  | list {items : List (Padded Spelling)} {values : List Value} {gap : Gap}
      (each : WritesItems items values) : Writes (.list items gap) (.list values)
  | object {ms ns : List (Padded TextSpelling × Padded Spelling)} {members : List (String × Value)}
      {gap : Gap} (order : ms.Perm ns) (each : WritesMembers ns members) :
      Writes (.object ms gap) (.object members)

inductive WritesItems : List (Padded Spelling) → List Value → Prop
  | nil : WritesItems [] []
  | cons {item : Padded Spelling} {items : List (Padded Spelling)} {v : Value} {values : List Value}
      (first : Writes item.value v) (rest : WritesItems items values) :
      WritesItems (item :: items) (v :: values)

inductive WritesMembers :
    List (Padded TextSpelling × Padded Spelling) → List (String × Value) → Prop
  | nil : WritesMembers [] []
  | cons {m : Padded TextSpelling × Padded Spelling}
      {ms : List (Padded TextSpelling × Padded Spelling)} {name : String} {v : Value}
      {members : List (String × Value)} (named : m.1.value.Spells name)
      (first : Writes m.2.value v) (rest : WritesMembers ms members) :
      WritesMembers (m :: ms) ((name, v) :: members)
end

end Spelling

variable {α β : Type}

/-- The reader takes every spelling of the value for `a`. -/
def Value.ReadAs (v : Value) (reader : Node → Reading α) (a : α) : Prop :=
  ∀ s : Spelling, s.Writes v → reader s.node = .ok a

namespace Value

theorem readAs_bool (b : Bool) : (bool b).ReadAs Node.bool b := by
  rintro s ⟨⟩
  cases b <;> rfl

theorem readAs_text (t : String) : (text t).ReadAs Node.string t := by
  intro _ written
  cases written with
  | text spells => exact (TextSpelling.decode_eq_ok_iff _ _).mpr spells

theorem readAs_real (x : Binary64) : (real x).ReadAs Node.real x := by
  intro _ written
  cases written with
  | real reads => exact reads

theorem readAs_integer {reader : Node → Reading α} {z : Int} {a : α}
    (fits : z.natAbs < 0x10000000000000000) (h : reader (Node.ofInt z) = .ok a) :
    (integer z).ReadAs reader a := by
  intro _ written
  cases written with
  | integer decimal =>
    rw [Spelling.node, decimal.numeral_eq fits]
    exact h

theorem readAs_uint64 (n : UInt64) : (integer n.toNat).ReadAs Node.uint64 n :=
  have bound := n.toNat_lt
  readAs_integer (by omega) (Node.uint64_ofInt n)

theorem readAs_uint32 (n : UInt32) : (integer n.toNat).ReadAs Node.uint32 n :=
  have bound := n.toNat_lt
  readAs_integer (by omega) (Node.uint32_ofInt n)

theorem readAs_uint16 (n : UInt16) : (integer n.toNat).ReadAs Node.uint16 n :=
  have bound := n.toNat_lt
  readAs_integer (by omega) (Node.uint16_ofInt n)

theorem readAs_int64 (n : Int64) : (integer n.toInt).ReadAs Node.int64 n :=
  have high := n.toInt_lt
  have low := n.le_toInt
  readAs_integer (by omega) (Node.int64_ofInt n)

theorem readAs_int32 (n : Int32) : (integer n.toInt).ReadAs Node.int32 n :=
  have high := n.toInt_lt
  have low := n.le_toInt
  readAs_integer (by omega) (Node.int32_ofInt n)

theorem readAs_tag {lookup : String → Option α} {tag : String} {a : α}
    (found : lookup tag = some a) : (text tag).ReadAs (Node.tag lookup) a := by
  intro _ written
  cases written with
  | text spells =>
    simp only [Spelling.node, Node.tag, (TextSpelling.decode_eq_ok_iff _ _).mpr spells, bind,
      Except.bind, found]

theorem listItems_of_writes {reader : Node → Reading α} {value : α → Value} {as : List α}
    (each : ∀ a ∈ as, (value a).ReadAs reader a) {items : List (Padded Spelling)}
    (written : Spelling.WritesItems items (as.map value)) :
    Node.listItems reader (Spelling.itemNodes items) = .ok as := by
  induction as generalizing items with
  | nil =>
    cases written
    rfl
  | cons a as ih =>
    cases written with
    | cons first rest =>
      have head := each a List.mem_cons_self _ first
      have tail := ih (fun b mem => each b (List.mem_cons_of_mem a mem)) rest
      rw [Spelling.itemNodes, Node.listItems, head, tail]
      rfl

theorem readAs_list {reader : Node → Reading α} {value : α → Value} {as : List α}
    (each : ∀ a ∈ as, (value a).ReadAs reader a) :
    (list (as.map value)).ReadAs (Node.listOf reader) as := by
  intro _ written
  cases written with
  | list written =>
    rw [Spelling.node, Node.listOf_complete]
    exact listItems_of_writes each written

end Value

def Field.Takes (f : Field α) (v : Value) (change : α → α) : Prop := v.ReadAs f.update change

theorem Field.takes_nullable {name : String} {default : β} {reader : Node → Reading β}
    {put : β → α → α} {v : Value} {b : β} (h : v.ReadAs reader b) (written : v ≠ .null) :
    (Field.nullable name default reader put).Takes v (put b) := by
  intro s writes
  have reads : Node.orDefault default reader s.node = reader s.node := by
    cases writes with
    | null => exact absurd rfl written
    | bool b => cases b <;> rfl
    | _ => rfl
  rw [update_nullable, reads, h s writes]
  rfl

theorem Field.takes_required {name : String} {reader : Node → Reading β} {put : β → α → α}
    {v : Value} {b : β} (h : v.ReadAs reader b) :
    (Field.required name reader put).Takes v (put b) := by
  intro s writes
  simp only [required, h s writes]
  rfl

theorem Field.Takes.withAlias {f : Field α} {v : Value} {change : α → α} (h : f.Takes v change)
    (name : String) : (f.withAlias name).Takes v change := h

/-- The members, one for each field in order, turn the first record into the second. -/
inductive Fills : List (Field α) → List (String × Value) → α → α → Prop
  | nil {a : α} : Fills [] [] a a
  | cons {f : Field α} {fields : List (Field α)} {v : Value} {members : List (String × Value)}
      {change : α → α} {a b : α} (takes : f.Takes v change)
      (rest : Fills fields members (change a) b) :
      Fills (f :: fields) ((f.name, v) :: members) a b

theorem Fills.nullable {name : String} {default : β} {reader : Node → Reading β}
    {put : β → α → α} {v : Value} {b : β} {fields : List (Field α)}
    {members : List (String × Value)} {a a' : α} (h : v.ReadAs reader b) (written : v ≠ .null)
    (rest : Fills fields members (put b a) a') :
    Fills (.nullable name default reader put :: fields) ((name, v) :: members) a a' :=
  .cons (Field.takes_nullable h written) rest

theorem Fills.required {name : String} {reader : Node → Reading β} {put : β → α → α} {v : Value}
    {b : β} {fields : List (Field α)} {members : List (String × Value)} {a a' : α}
    (h : v.ReadAs reader b) (rest : Fills fields members (put b a) a') :
    Fills (.required name reader put :: fields) ((name, v) :: members) a a' :=
  .cons (Field.takes_required h) rest

namespace Shape

variable {s : Shape α}

theorem effects_of_fills (separate : s.Separate) {fields : List (Field α)}
    {members : List (String × Value)} {a b : α} (fills : Fills fields members a b)
    (part : ∀ f ∈ fields, f ∈ s.fields) {ms : List Member}
    (written : Spelling.WritesMembers ms members) :
    .fault ∉ (ms.map Member.node).map s.effect ∧
      Effect.fields ((ms.map Member.node).map s.effect) = fields.map Field.name ∧
      Effect.applyAll ((ms.map Member.node).map s.effect) a = b := by
  induction fills generalizing ms with
  | nil =>
    cases written
    exact ⟨nofun, rfl, rfl⟩
  | @cons f fields v members change a b takes rest ih =>
    cases written with
    | @cons m ms _ _ _ named first written =>
      have known : s.field? f.name = some f :=
        (separate.field?_eq_some_iff _ _).mpr ⟨part f List.mem_cons_self, List.mem_cons_self⟩
      have effect : s.effect (Member.node m) = .change f.name change :=
        effect_of_known ((Member.name_node_eq_ok_iff m f.name).mpr named) known (takes _ first)
      obtain ⟨readable, names, value⟩ :=
        ih (fun f mem => part f (List.mem_cons_of_mem _ mem)) written
      rw [List.map_cons, List.map_cons, effect, Effect.fields_change, Effect.applyAll_change, names,
        List.map_cons]
      exact ⟨by simpa using readable, rfl, value⟩

/-- A record is read back from the object of its fields, in any order. -/
theorem readAs_of_fills (separate : s.Separate) {members : List (String × Value)} {a : α}
    (fills : Fills s.fields members s.blank a) : (Value.object members).ReadAs s.read a := by
  intro _ written
  cases written with
  | @object ms ns _ _ order each =>
    obtain ⟨readable, names, value⟩ := effects_of_fills separate fills (fun _ mem => mem) each
    have complete : s.complete (s.fields.map Field.name) = true := by
      simp only [Shape.complete, List.all_eq_true, Bool.or_eq_true, List.contains_eq_mem,
        decide_eq_true_eq]
      exact fun f mem => Or.inr (List.mem_map.mpr ⟨f, mem, rfl⟩)
    have yields : s.Yields ((ns.map Member.node).map s.effect) a :=
      ⟨readable, names ▸ nodup_names separate, names ▸ complete, value⟩
    rw [Spelling.node, Spelling.memberNodes_eq_map]
    refine (separate.readObject_perm ((order.map Member.node).map s.effect) a).mpr ?_
    exact (s.readObject_eq_ok_iff _ a).mpr yields

end Shape
end RuleFeed.Json
