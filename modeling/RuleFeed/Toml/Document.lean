import RuleFeed.Toml.Statement

/-!
The table that a TOML text describes. Assignments go to the table of the latest header, or to the
document before the first one; a statement that defines a name a second time is a fault.
-/
namespace RuleFeed.Toml

structure Draft where
  members : Members
  /-- The names that lead to the table of the latest header. -/
  current : List String

def Path.names (p : Path) : List String := p.parents ++ [p.name]

namespace Draft

def empty : Draft := ⟨[], []⟩

def add (d : Draft) : Statement → Option Draft
  | .assign key value => do
    let members ← Members.within false (Members.assign key value) d.current .stated d.members
    return { d with members }
  | .table key => do
    let members ← Members.state key .stated d.members
    return ⟨members, key.names⟩
  | .further key => do
    let members ← Members.stateFurther key .stated d.members
    return ⟨members, key.names⟩

end Draft

def Members.read (text : String) : Option Members := do
  let statements ← Statement.read text
  let draft ← statements.foldlM Draft.add .empty
  return draft.members

def document? (text : String) : Option Json.Node :=
  (Members.read text).map fun members => (Value.table .stated members).node

end RuleFeed.Toml
