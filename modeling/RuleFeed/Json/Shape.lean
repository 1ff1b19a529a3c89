import RuleFeed.Json.Document
import RuleFeed.Json.Scalar

/-!
Records by the names and order of their fields. A record is written as an object of its fields,
or as a list of their values in order. Names that the shape does not know are skipped; a name may
stand once, whichever of a field's names it is. A field that is not mandatory keeps the blank
record's value where it is absent.
-/
namespace RuleFeed.Json

structure Field (α : Type) where
  name : String
  aliases : List String
  mandatory : Bool
  update : Node → Reading (α → α)

structure Shape (α : Type) where
  blank : α
  fields : List (Field α)

namespace Field

variable {α β : Type}

def hasName (f : Field α) (key : String) : Bool := key == f.name || f.aliases.contains key

def required (name : String) (read : Node → Reading β) (put : β → α → α) : Field α :=
  ⟨name, [], true, fun n => (read n).map put⟩

def optional (name : String) (read : Node → Reading β) (put : β → α → α) : Field α :=
  ⟨name, [], false, fun n => (read n).map put⟩

/-- A field that may be absent, also as `null`, which stands for the default. -/
def nullable (name : String) (default : β) (read : Node → Reading β) (put : β → α → α) :
    Field α :=
  optional name (Node.orDefault default read) put

def withAlias (f : Field α) (name : String) : Field α := { f with aliases := name :: f.aliases }

end Field

/-- A record under way, with the names of the fields that have been read. -/
structure Progress (α : Type) where
  value : α
  seen : List String

namespace Shape

variable {α : Type}

def field? (s : Shape α) (key : String) : Option (Field α) := s.fields.find? (·.hasName key)

def readMember (s : Shape α) (p : Progress α) (name value : Node) : Reading (Progress α) := do
  match s.field? (← name.name) with
  | none =>
    value.skip
    return p
  | some f =>
    if p.seen.contains f.name then .error .mismatch
    else do
      let change ← f.update value
      return ⟨change p.value, f.name :: p.seen⟩

def readMembers (s : Shape α) (p : Progress α) : List (Node × Node) → Reading (Progress α)
  | [] => .ok p
  | (name, value) :: members => do
    let p ← s.readMember p name value
    readMembers s p members

def complete (s : Shape α) (seen : List String) : Bool :=
  s.fields.all fun f => !f.mandatory || seen.contains f.name

def readObject (s : Shape α) (members : List (Node × Node)) (close : Close) : Reading α := do
  let p ← s.readMembers ⟨s.blank, []⟩ members
  close.pass
  if s.complete p.seen then return p.value else .error .mismatch

def readList (value : α) : List (Field α) → List Node → Close → Reading α
  | f :: fields, n :: items, close => do
    let change ← f.update n
    readList (change value) fields items close
  | f :: fields, [], close => do
    close.pass
    if (f :: fields).any (·.mandatory) then .error .mismatch else return value
  | [], [], close => do
    close.pass
    return value
  | [], _ :: _, .lenient => return value
  | [], _ :: _, _ => .error .malformed

def read (s : Shape α) : Node → Reading α
  | .object members close => s.readObject members close
  | .list items close => readList s.blank s.fields items close
  | n => .error n.wrong

def readDocument (s : Shape α) (text : String) : Reading α := (Document.ofString text).read s.read

end Shape
end RuleFeed.Json
