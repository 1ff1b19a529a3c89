import RuleFeed.Record

/-! A published document: a version and the records of one category. -/
namespace RuleFeed

structure Envelope (c : Category) where
  version : String
  records : List (Record c)

namespace Envelope

open Json

variable {c : Category}

def blank : Envelope c := ⟨"", []⟩

def shape (c : Category) : Shape (Envelope c) where
  blank := blank
  fields := [
    (Field.nullable "Version" "" Node.string fun v e => { e with version := v }).withAlias
      "version",
    (Field.nullable "Data" [] (Node.listOf (Record.shape c).read)
      fun v e => { e with records := v }).withAlias "data"]

def ofDocument (c : Category) (payload : String) : Reading (Envelope c) :=
  (shape c).readDocument payload

end Envelope
end RuleFeed
