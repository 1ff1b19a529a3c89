import RuleFeed.Json.Node

/-!
TOML values and tables. A table remembers how it came to be, which decides what may still be put
into it. As a node, a value is what the readers of records take: a number that is no integer and
a date are values that no field holds.
-/
namespace RuleFeed.Toml

/-- How a table came to be: by a header or as the document, as a parent in a header, as a parent in
a dotted key, or between braces, where it is complete. -/
inductive Origin where
  | stated
  | implied
  | dotted
  | inline
  deriving DecidableEq, Repr

inductive Value where
  | text (s : String)
  | integer (z : Int)
  | real (x : Binary64)
  | bool (b : Bool)
  | moment (written : String)
  | list (items : List Value)
  | table (origin : Origin) (members : List (String × Value))
  | tables (elements : List (List (String × Value)))

abbrev Members := List (String × Value)

structure Path where
  parents : List String
  name : String
  deriving DecidableEq, Repr

/-- The name under which a date shows where a table is expected; no record has such a field. -/
def momentName : String := "$moment"

mutual
def Value.node : Value → Json.Node
  | .text s => .ofString s
  | .integer z => .ofInt z
  | .real _ => .foreign
  | .bool b => .ofBool b
  | .moment written => .ofMembers [(momentName, .ofString written)]
  | .list items => .list (itemNodes items) .lenient
  | .table _ members => .ofMembers (memberNodes members)
  | .tables elements => .list (tableNodes elements) .lenient

def itemNodes : List Value → List Json.Node
  | [] => []
  | v :: vs => v.node :: itemNodes vs

def memberNodes : List (String × Value) → List (String × Json.Node)
  | [] => []
  | (name, v) :: rest => (name, v.node) :: memberNodes rest

def tableNodes : List (List (String × Value)) → List Json.Node
  | [] => []
  | members :: rest => .ofMembers (memberNodes members) :: tableNodes rest
end

namespace Members

def change (name : String) (value : Value) : Members → Members
  | [] => []
  | (m, v) :: rest => if m = name then (m, value) :: rest else (m, v) :: change name value rest

def put (name : String) (value : Value) (ms : Members) : Option Members :=
  match ms.lookup name with
  | none => some (ms ++ [(name, value)])
  | some _ => none

def passing (dotted : Bool) : Origin := if dotted then .dotted else .implied

/-- Whether a path may lead through a table. A dotted key opens no table with a header. -/
def mayPass (dotted : Bool) : Origin → Bool
  | .stated => !dotted
  | .implied => true
  | .dotted => true
  | .inline => false

/-- Changes the members of the table that a path leads to, by way of the last of each list of
tables. Tables that are not there yet are made. -/
def within (dotted : Bool) (f : Origin → Members → Option Members) :
    List String → Origin → Members → Option Members
  | [], origin, ms => f origin ms
  | name :: names, _, ms =>
    match ms.lookup name with
    | none => do
      let inner ← within dotted f names (passing dotted) []
      return ms ++ [(name, .table (passing dotted) inner)]
    | some (.table origin inner) =>
      if mayPass dotted origin then do
        let inner ← within dotted f names origin inner
        return change name (.table origin inner) ms
      else none
    | some (.tables elements) =>
      match elements.getLast? with
      | none => none
      | some inner => do
        let inner ← within dotted f names .stated inner
        return change name (.tables (elements.dropLast ++ [inner])) ms
    | some _ => none

/-- Assigns a value to a key. The table that a dotted key leads to must be one that dotted keys
made. -/
def assign (key : Path) (value : Value) (origin : Origin) (ms : Members) : Option Members :=
  match key.parents with
  | [] => put key.name value ms
  | parents =>
    within true (fun o inner => if o = .dotted then put key.name value inner else none)
      parents origin ms

def state (key : Path) (origin : Origin) (ms : Members) : Option Members :=
  within false (fun _ inner =>
    match inner.lookup key.name with
    | none => some (inner ++ [(key.name, .table .stated [])])
    | some (.table .implied own) => some (change key.name (.table .stated own) inner)
    | some _ => none) key.parents origin ms

def stateFurther (key : Path) (origin : Origin) (ms : Members) : Option Members :=
  within false (fun _ inner =>
    match inner.lookup key.name with
    | none => some (inner ++ [(key.name, .tables [[]])])
    | some (.tables elements) => some (change key.name (.tables (elements ++ [[]])) inner)
    | some _ => none) key.parents origin ms

def ofPairs (pairs : List (Path × Value)) : Option Members :=
  pairs.foldlM (fun ms pair => assign pair.1 pair.2 .inline ms) []

end Members
end RuleFeed.Toml
