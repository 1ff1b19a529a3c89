import RuleFeed.Json.Numeral
import RuleFeed.Json.Text
import RuleFeed.Json.Word

/-!
Values as they stand in a document, faults included. A node keeps the faults of its text in the
places where a reader meets them, so the first fault in text order is the first one met on a walk
through the tree. A reader that wants another kind of value and one that skips the value look at
different parts of it; `wrong` and `skip` are those two walks.
-/
namespace RuleFeed.Json

inductive Close where
  | complete
  /-- Complete, and a reader need not take every item. -/
  | lenient
  | broken (f : Fault)
  deriving DecidableEq, Repr

inductive Node where
  /-- The text ends where a value should begin. -/
  | missing
  | stray
  | word (w : Reading Word)
  | number (n : Reading Numeral)
  | text (t : Text)
  | list (items : List Node) (close : Close)
  /-- Names and values. A name is a node too, for it can be at fault or no text at all. -/
  | object (members : List (Node × Node)) (close : Close)
  /-- A value of a kind that no reader takes. -/
  | foreign

def Close.pass : Close → Reading Unit
  | .complete => .ok ()
  | .lenient => .ok ()
  | .broken f => .error f

namespace Node

def ofString (s : String) : Node := .text (.ofString s)

def ofInt (z : Int) : Node := .number (.ok (.ofInt z))

def ofBool : Bool → Node
  | true => .word (.ok .true)
  | false => .word (.ok .false)

def null : Node := .word (.ok .null)

def ofList (items : List Node) : Node := .list items .complete

def ofMembers (members : List (String × Node)) : Node :=
  .object (members.map fun m => (ofString m.1, m.2)) .complete

def name : Node → Reading String
  | .text t => t.decode
  | .missing => .error .truncated
  | _ => .error .malformed

@[simp] theorem name_ofString (s : String) : (ofString s).name = .ok s := Text.decode_ofString s

def skipName : Node → Reading Unit
  | .text t => t.skip
  | .missing => .error .truncated
  | _ => .error .malformed

mutual
/-- Passes over a value of which only the grammar is checked. -/
def skip : Node → Reading Unit
  | .missing => .error .truncated
  | .stray => .error .malformed
  | .word w => w.map fun _ => ()
  | .number n => (n.map fun _ => ()).mapError fun _ => .malformed
  | .text t => t.skip
  | .list items close => do
    skipItems items
    close.pass
  | .object members close => do
    skipMembers members
    close.pass
  | .foreign => .ok ()

def skipItems : List Node → Reading Unit
  | [] => .ok ()
  | item :: items => do
    skip item
    skipItems items

def skipMembers : List (Node × Node) → Reading Unit
  | [] => .ok ()
  | (name, value) :: members => do
    skipName name
    skip value
    skipMembers members
end

/-- The fault of a value of another kind than the one asked for. A word, number or string is read
before it is refused, a list or an object is not. -/
def wrong : Node → Fault
  | .missing => .truncated
  | .stray => .malformed
  | .word (.error f) => f
  | .word (.ok _) => .mismatch
  | .number (.error f) => f
  | .number (.ok n) =>
    match n.number with
    | .error f => f
    | .ok _ => .mismatch
  | .text t =>
    match t.decode with
    | .error f => f
    | .ok _ => .mismatch
  | .list _ _ => .mismatch
  | .object _ _ => .mismatch
  | .foreign => .mismatch

end Node
end RuleFeed.Json
