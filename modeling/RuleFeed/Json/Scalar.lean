import RuleFeed.Json.Node

/-!
Readers of single values. None converts: an integer field takes an integer literal within its own
range, a binary64 field takes either kind of number, and a text is never read as a number.
-/
namespace RuleFeed.Json.Node

def bool : Node → Reading Bool
  | .word (.ok .true) => .ok true
  | .word (.ok .false) => .ok false
  | n => .error n.wrong

def string : Node → Reading String
  | .text t => t.decode
  | n => .error n.wrong

def integer (low high : Int) : Node → Reading Int
  | .number (.ok n) =>
    match n.number with
    | .ok (.integer z) => if low ≤ z ∧ z ≤ high then .ok z else .error .mismatch
    | .ok (.real _) => .error .mismatch
    | .error f => .error f
  | n => .error n.wrong

def uint64 (n : Node) : Reading UInt64 :=
  (n.integer 0 0xffffffffffffffff).map fun z => UInt64.ofNat z.toNat

def uint32 (n : Node) : Reading UInt32 :=
  (n.integer 0 0xffffffff).map fun z => UInt32.ofNat z.toNat

def uint16 (n : Node) : Reading UInt16 :=
  (n.integer 0 0xffff).map fun z => UInt16.ofNat z.toNat

def int64 (n : Node) : Reading Int64 :=
  (n.integer (-0x8000000000000000) 0x7fffffffffffffff).map Int64.ofInt

def int32 (n : Node) : Reading Int32 :=
  (n.integer (-0x80000000) 0x7fffffff).map Int32.ofInt

@[simp] theorem string_ofString (s : String) : (ofString s).string = .ok s :=
  Text.decode_ofString s

@[simp] theorem bool_ofBool (b : Bool) : (ofBool b).bool = .ok b := by cases b <;> rfl

theorem integer_ofInt {low high z : Int} (hl : low ≤ z) (hh : z ≤ high)
    (least : -0x8000000000000000 ≤ low) (most : high < 0x10000000000000000) :
    (ofInt z).integer low high = .ok z := by
  have bounds : low ≤ z ∧ z ≤ high := ⟨hl, hh⟩
  have number := Numeral.number_ofInt (Int.le_trans least hl) (Int.lt_of_le_of_lt hh most)
  simp only [ofInt, integer, number, if_pos bounds]

@[simp] theorem uint64_ofInt (n : UInt64) : (ofInt n.toNat).uint64 = .ok n := by
  have bound := n.toNat_lt
  rw [uint64, integer_ofInt (by omega) (by omega) (by decide) (by decide)]
  simp only [Except.map, Int.toNat_natCast, UInt64.ofNat_toNat]

@[simp] theorem uint32_ofInt (n : UInt32) : (ofInt n.toNat).uint32 = .ok n := by
  have bound := n.toNat_lt
  rw [uint32, integer_ofInt (by omega) (by omega) (by decide) (by decide)]
  simp only [Except.map, Int.toNat_natCast, UInt32.ofNat_toNat]

@[simp] theorem uint16_ofInt (n : UInt16) : (ofInt n.toNat).uint16 = .ok n := by
  have bound := n.toNat_lt
  rw [uint16, integer_ofInt (by omega) (by omega) (by decide) (by decide)]
  simp only [Except.map, Int.toNat_natCast, UInt16.ofNat_toNat]

@[simp] theorem int64_ofInt (n : Int64) : (ofInt n.toInt).int64 = .ok n := by
  have low := n.le_toInt
  have high := n.toInt_lt
  rw [int64, integer_ofInt (by omega) (by omega) (by decide) (by decide)]
  simp only [Except.map, Int64.ofInt_toInt]

@[simp] theorem int32_ofInt (n : Int32) : (ofInt n.toInt).int32 = .ok n := by
  have low := n.le_toInt
  have high := n.toInt_lt
  rw [int32, integer_ofInt (by omega) (by omega) (by decide) (by decide)]
  simp only [Except.map, Int32.ofInt_toInt]

def real : Node → Reading Binary64
  | .number (.ok n) => n.number.map Number.toBinary64
  | n => .error n.wrong

def listItems {α : Type} (reader : Node → Reading α) : List Node → Reading (List α)
  | [] => .ok []
  | n :: ns => do
    let a ← reader n
    let as ← listItems reader ns
    return a :: as

theorem listItems_eq_ok_iff {α : Type} (reader : Node → Reading α) (items : List Node)
    (as : List α) : listItems reader items = .ok as ↔ items.map reader = as.map .ok := by
  induction items generalizing as with
  | nil => cases as <;> simp [listItems]
  | cons n items ih =>
    cases first : reader n <;> cases rest : listItems reader items <;> cases as <;>
      simp_all [listItems, bind, Except.bind, pure, Except.pure]

def listOf {α : Type} (reader : Node → Reading α) : Node → Reading (List α)
  | .list items close => do
    let as ← listItems reader items
    close.pass
    return as
  | n => .error n.wrong

@[simp] theorem listOf_complete {α : Type} (reader : Node → Reading α) (items : List Node) :
    listOf reader (.list items .complete) = listItems reader items := by
  rw [listOf]
  cases listItems reader items <;> rfl

theorem listOf_ofList {α : Type} (reader : Node → Reading α) (encode : α → Node) (as : List α)
    (law : ∀ a ∈ as, reader (encode a) = .ok a) :
    listOf reader (ofList (as.map encode)) = .ok as := by
  have items : listItems reader (as.map encode) = .ok as := by
    induction as with
    | nil => rfl
    | cons a as ih =>
      have first : reader (encode a) = .ok a := law a List.mem_cons_self
      have rest := ih fun b mem => law b (List.mem_cons_of_mem a mem)
      simp only [List.map_cons, listItems, first, rest]
      rfl
  simp only [ofList, listOf, items]
  rfl

def orDefault {α : Type} (default : α) (reader : Node → Reading α) : Node → Reading α
  | .word (.ok .null) => .ok default
  | n => reader n

/-- One of a set of tags, written as a text or as an object with the tag for its only name and
`null` for its value. The name is read as every member's name is: one that is no text breaks the
grammar, whatever the tag would be. -/
def tag {α : Type} (lookup : String → Option α) : Node → Reading α
  | .text t => do
    match lookup (← t.decode) with
    | some a => .ok a
    | none => .error .mismatch
  | .object ((name, value) :: rest) close => do
    match lookup (← name.name) with
    | none => .error .mismatch
    | some a =>
      match value with
      | .word (.ok .null) =>
        match rest with
        | [] =>
          close.pass
          return a
        | _ :: _ => .error .malformed
      | value => .error value.wrong
  | .object [] (.broken f) => .error f
  | .missing => .error .truncated
  | _ => .error .malformed

end RuleFeed.Json.Node
