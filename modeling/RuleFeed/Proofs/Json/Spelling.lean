import RuleFeed.Json.Node
import RuleFeed.Text.Digit

/-!
JSON values as they can be spelled. A spelling fixes every choice that the grammar of RFC 8259
leaves to a writer: white space, escapes, the letter case of hexadecimal digits, the form of a
number, the order and the names of members. Its `chars` are the text, its `node` is the value as
it stands in a document. No spelling has a fault, and every value text of the grammar is the
`chars` of one: the types leave no other choice.
-/
namespace RuleFeed.Json

structure Gap where
  chars : List Char
  blank : ∀ c ∈ chars, c = ' ' ∨ c = '\t' ∨ c = '\n' ∨ c = '\r'

def Gap.empty : Gap := ⟨[], nofun⟩

structure Padded (α : Type) where
  before : Gap
  value : α
  after : Gap

def Padded.tight {α : Type} (a : α) : Padded α := ⟨.empty, a, .empty⟩

structure HexDigit where
  value : Fin 16
  upper : Bool

def HexDigit.char (d : HexDigit) : Char :=
  if d.value.val < 10 then Char.ofNat (0x30 + d.value.val)
  else if d.upper then Char.ofNat (0x37 + d.value.val)
  else Char.ofNat (0x57 + d.value.val)

structure Quad where
  first : HexDigit
  second : HexDigit
  third : HexDigit
  fourth : HexDigit

namespace Quad

def chars (q : Quad) : List Char := [q.first.char, q.second.char, q.third.char, q.fourth.char]

def value (q : Quad) : Nat :=
  ((q.first.value.val * 16 + q.second.value.val) * 16 + q.third.value.val) * 16 +
    q.fourth.value.val

/-- The digits of the last 16 bits, in lower case. -/
def ofNat (n : Nat) : Quad :=
  ⟨⟨Fin.ofNat 16 (n / 0x1000), false⟩, ⟨Fin.ofNat 16 (n / 0x100), false⟩,
    ⟨Fin.ofNat 16 (n / 0x10), false⟩, ⟨Fin.ofNat 16 n, false⟩⟩

theorem value_ofNat {n : Nat} (bound : n < 0x10000) : (ofNat n).value = n := by
  simp only [value, ofNat, Fin.val_ofNat]
  omega

theorem value_lt (q : Quad) : q.value < 0x10000 := by
  unfold value
  omega

end Quad

inductive Escape where
  | quotationMark
  | reverseSolidus
  | solidus
  | backspace
  | formFeed
  | lineFeed
  | carriageReturn
  | tab

namespace Escape

def letter : Escape → Char
  | quotationMark => '"'
  | reverseSolidus => '\\'
  | solidus => '/'
  | backspace => 'b'
  | formFeed => 'f'
  | lineFeed => 'n'
  | carriageReturn => 'r'
  | tab => 't'

def char : Escape → Char
  | quotationMark => '"'
  | reverseSolidus => '\\'
  | solidus => '/'
  | backspace => Char.ofNat 0x08
  | formFeed => Char.ofNat 0x0c
  | lineFeed => Char.ofNat 0x0a
  | carriageReturn => Char.ofNat 0x0d
  | tab => Char.ofNat 0x09

end Escape

/-- The character may stand for itself in a literal. -/
abbrev IsBare (c : Char) : Prop := 0x20 ≤ c.toNat ∧ c ≠ '"' ∧ c ≠ '\\'

inductive Letter where
  | bare (c : Char) (allowed : IsBare c)
  | short (e : Escape)
  | unit (q : Quad)

namespace Letter

def chars : Letter → List Char
  | bare c _ => [c]
  | short e => ['\\', e.letter]
  | unit q => '\\' :: 'u' :: q.chars

def piece : Letter → Piece
  | bare c _ => .char c
  | short e => .char e.char
  | unit q => .unit (UInt16.ofNat q.value)

end Letter

structure TextSpelling where
  letters : List Letter

namespace TextSpelling

def chars (t : TextSpelling) : List Char := '"' :: (t.letters.flatMap Letter.chars ++ ['"'])

def text (t : TextSpelling) : Text := ⟨t.letters.map Letter.piece, none⟩

end TextSpelling

structure Digits where
  first : Fin 10
  rest : List (Fin 10)

def Digits.ofDigit (n : Nat) : Digits := ⟨Fin.ofNat 10 n, []⟩

def Digits.list (d : Digits) : List (Fin 10) := d.first :: d.rest

def digitChars (ds : List (Fin 10)) : List Char := ds.map fun d => digitChar d.val

def digitsValue (ds : List (Fin 10)) : Nat := ds.foldl (fun n d => n * 10 + d.val) 0

/-- The digits before the point: a single zero, or no zero in front. -/
inductive Whole where
  | zero
  | positive (first : Fin 9) (rest : List (Fin 10))

def Whole.list : Whole → List (Fin 10)
  | zero => [0]
  | positive first rest => first.succ :: rest

inductive ExponentSign where
  | absent
  | plus
  | minus

def ExponentSign.chars : ExponentSign → List Char
  | absent => []
  | plus => ['+']
  | minus => ['-']

structure Exponent where
  upper : Bool
  sign : ExponentSign
  digits : Digits

namespace Exponent

def chars (e : Exponent) : List Char :=
  (if e.upper then 'E' else 'e') :: (e.sign.chars ++ digitChars e.digits.list)

def value (e : Exponent) : Int :=
  match e.sign with
  | .minus => -(digitsValue e.digits.list : Int)
  | _ => digitsValue e.digits.list

end Exponent

structure NumberSpelling where
  negative : Bool
  whole : Whole
  fraction : Option Digits
  exponent : Option Exponent

namespace NumberSpelling

def chars (n : NumberSpelling) : List Char :=
  (if n.negative then ['-'] else []) ++ digitChars n.whole.list ++
    (n.fraction.elim [] fun f => '.' :: digitChars f.list) ++
    n.exponent.elim [] Exponent.chars

def wholePart (n : NumberSpelling) : Numeral :=
  n.whole.list.foldl (fun m d => m.addWhole d.val) (.start n.negative)

def withFraction (m : Numeral) : Option Digits → Numeral
  | none => m
  | some f => f.list.foldl (fun m d => m.addFraction d.val) m.point

def withExponent (m : Numeral) : Option Exponent → Numeral
  | none => m
  | some e => { m.mark with exponent := e.value }

def numeral (n : NumberSpelling) : Numeral :=
  withExponent (withFraction n.wholePart n.fraction) n.exponent

def ofDigit (n : Nat) : NumberSpelling where
  negative := false
  whole := if positive : 0 < n % 10 then .positive ⟨n % 10 - 1, by omega⟩ [] else .zero
  fraction := none
  exponent := none

end NumberSpelling

inductive Spelling where
  | word (w : Word)
  | number (n : NumberSpelling)
  | text (t : TextSpelling)
  /-- Values with a comma between any two; the last gap is all there is if there are none. -/
  | list (items : List (Padded Spelling)) (gap : Gap)
  | object (members : List (Padded TextSpelling × Padded Spelling)) (gap : Gap)

abbrev Member := Padded TextSpelling × Padded Spelling

/-- The comma before an item, which the first one lacks. -/
def comma (started : Bool) : List Char := if started then [','] else []

namespace Spelling

mutual
def chars : Spelling → List Char
  | word w => w.letters
  | number n => n.chars
  | text t => t.chars
  | list items gap => '[' :: (itemChars false items ++ gap.chars ++ [']'])
  | object members gap => '{' :: (memberChars false members ++ gap.chars ++ ['}'])

def itemChars (started : Bool) : List (Padded Spelling) → List Char
  | [] => []
  | ⟨before, value, after⟩ :: items =>
    comma started ++ before.chars ++ value.chars ++ after.chars ++ itemChars true items

def memberChars (started : Bool) : List (Padded TextSpelling × Padded Spelling) → List Char
  | [] => []
  | (name, ⟨before, value, after⟩) :: members =>
    comma started ++ name.before.chars ++ name.value.chars ++ name.after.chars ++ [':'] ++
      before.chars ++ value.chars ++ after.chars ++ memberChars true members
end

mutual
def node : Spelling → Node
  | word w => .word (.ok w)
  | number n => .number (.ok n.numeral)
  | text t => .text t.text
  | list items _ => .list (itemNodes items) .complete
  | object members _ => .object (memberNodes members) .complete

def itemNodes : List (Padded Spelling) → List Node
  | [] => []
  | ⟨_, value, _⟩ :: items => value.node :: itemNodes items

def memberNodes : List (Padded TextSpelling × Padded Spelling) → List (Node × Node)
  | [] => []
  | (name, ⟨_, value, _⟩) :: members => (.text name.value.text, value.node) :: memberNodes members
end

end Spelling

def Member.node (m : Member) : Node × Node := (.text m.1.value.text, m.2.value.node)

namespace Spelling

@[simp] theorem itemNodes_eq_map (items : List (Padded Spelling)) :
    itemNodes items = items.map fun item => item.value.node := by
  induction items with
  | nil => rfl
  | cons item items ih => rw [itemNodes, ih, List.map_cons]

@[simp] theorem memberNodes_eq_map (members : List Member) :
    memberNodes members = members.map Member.node := by
  induction members with
  | nil => rfl
  | cons member members ih =>
    rw [memberNodes, ih, List.map_cons, Member.node]

end Spelling

namespace Padded

def chars (p : Padded Spelling) : List Char :=
  p.before.chars ++ p.value.chars ++ p.after.chars

def document (p : Padded Spelling) : String := String.ofList p.chars

theorem toList_document (p : Padded Spelling) : p.document.toList = p.chars := String.toList_ofList

end Padded

/-- Parts with a comma before each but the first are the parts with a comma between any two. -/
theorem toList_intercalate_comma {α : Type} {text : α → String} {chars : Bool → List α → List Char}
    (empty : ∀ started, chars started [] = [])
    (next : ∀ started a as, chars started (a :: as) =
      comma started ++ (text a).toList ++ chars true as) (as : List α) :
    (",".intercalate (as.map text)).toList = chars false as := by
  induction as with
  | nil =>
    rw [empty]
    rfl
  | cons a as ih =>
    cases as with
    | nil =>
      rw [next, empty, List.map_singleton, String.intercalate_singleton, List.append_nil]
      rfl
    | cons b as =>
      rw [next] at ih
      rw [next, next, List.map_cons, List.map_cons, String.intercalate_cons_cons]
      rw [List.map_cons] at ih
      simp only [String.toList_append, ih, List.append_assoc]
      rfl

theorem Spelling.itemChars_eq_intercalate (items : List (Padded Spelling)) :
    itemChars false items = (",".intercalate (items.map Padded.document)).toList := by
  refine (toList_intercalate_comma (fun _ => rfl) ?_ items).symm
  intro started item items
  simp only [itemChars, Padded.toList_document, Padded.chars, List.append_assoc]

namespace Member

def document (m : Member) : String :=
  String.ofList (m.1.before.chars ++ m.1.value.chars ++ m.1.after.chars ++ [':'] ++ m.2.chars)

theorem memberChars_eq_intercalate (members : List Member) :
    Spelling.memberChars false members = (",".intercalate (members.map document)).toList := by
  refine (toList_intercalate_comma (fun _ => rfl) ?_ members).symm
  intro started member members
  simp only [Spelling.memberChars, document, String.toList_ofList, Padded.chars, List.append_assoc]

end Member

theorem Padded.document_object (members : List Member) :
    (tight (.object members .empty)).document =
      "\x7b" ++ ",".intercalate (members.map Member.document) ++ "\x7d" := by
  rw [← String.toList_inj, toList_document, String.toList_append, String.toList_append,
    ← Member.memberChars_eq_intercalate]
  simp [chars, tight, Gap.empty, Spelling.chars]

end RuleFeed.Json
