import RuleFeed.Record.Envelope
import RuleFeed.Report

/-!
From the text of a published document to a report. A document is decoded as a whole or not at
all: only a fault of the text is an error, and a record that stands for no rule is not one.
-/
namespace RuleFeed

structure DecodeError where
  category : Category
  fault : Json.Fault
  deriving DecidableEq, Repr

def DecodeError.message (e : DecodeError) (source : String) : String :=
  "failed to decode " ++ e.category.label ++ " rules: " ++ source

def Envelope.decode (c : Category) (payload : String) : Except DecodeError (Envelope c) :=
  (ofDocument c payload).mapError (DecodeError.mk c)

def Report.ofDocument (c : Category) (payload : String) : Except DecodeError (Report c) :=
  (Envelope.decode c payload).map fun e => ofRecords e.records

section

variable {c : Category} {payload : String}

theorem Envelope.decode_eq_ok_iff {e : Envelope c} :
    decode c payload = .ok e ↔ ofDocument c payload = .ok e :=
  Json.mapError_eq_ok_iff _ _ _

theorem Report.ofDocument_eq_ok_iff {report : Report c} :
    ofDocument c payload = .ok report ↔
      ∃ e, Envelope.ofDocument c payload = .ok e ∧ report = ofRecords e.records := by
  simp only [← Envelope.decode_eq_ok_iff]
  change (Envelope.decode c payload).map _ = _ ↔ _
  cases Envelope.decode c payload with
  | error fault => simp [Except.map]
  | ok e => simp [Except.map, eq_comm]

theorem Report.ofDocument_of_error {fault : Json.Fault}
    (read : Envelope.ofDocument c payload = .error fault) :
    ofDocument c payload = .error ⟨c, fault⟩ := by
  change ((Envelope.ofDocument c payload).mapError _).map _ = _
  rw [read]
  rfl

end
end RuleFeed
